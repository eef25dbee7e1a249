import JobBundler.Job.Candidate
import JobBundler.Proofs.Outline.Joined
import JobBundler.Proofs.Token.Spaced
import JobBundler.Reference

/-!
# What a space between two tokens changes

A space between two tokens moves what stands behind it and changes nothing else: the outline of the source,
its candidates and the names it refers to stay (`Outline.space_immaterial`).
-/

namespace JobBundler

/-! ## Lines -/

namespace Text

variable {n : Nat}

theorem splitAtByte?_append_of_le {as : List Char} (bs : List Char) (h : n ≤ byteLength as) :
    splitAtByte? (as ++ bs) n = (splitAtByte? as n).map fun (before, after) => (before, after ++ bs) := by
  fun_induction splitAtByte? as n with
  | case1 => simp [splitAtByte?]
  | case2 => simp at h
  | case3 c cs n hle ih =>
    rw [byteLength_cons] at h
    rw [List.cons_append, splitAtByte?, if_pos hle, ih (by omega), Option.map_map, Option.map_map]
    rfl
  | case4 c cs n hle => rw [List.cons_append, splitAtByte?, if_neg hle, Option.map_none]

theorem splitAtByte?_append_add (as bs : List Char) (n : Nat) :
    splitAtByte? (as ++ bs) (byteLength as + n) =
      (splitAtByte? bs n).map fun (before, after) => (as ++ before, after) := by
  induction as with
  | nil => simp
  | cons c cs ih =>
    have hc := c.utf8Size_pos
    obtain ⟨k, hk⟩ : ∃ k, byteLength (c :: cs) + n = k + 1 :=
      ⟨byteLength (c :: cs) + n - 1, by rw [byteLength_cons]; omega⟩
    have hrest : k + 1 - c.utf8Size = byteLength cs + n := by
      rw [byteLength_cons] at hk
      omega
    have hle : c.utf8Size ≤ k + 1 := by
      rw [byteLength_cons] at hk
      omega
    rw [hk, List.cons_append, splitAtByte?, if_pos hle, hrest, ih, Option.map_map]
    rfl

end Text

namespace Source

theorem line_locate (source : String) (s : Span) :
    (locate source s).line = (splitAt source.toList s.start).1.count '\n' + 1 := rfl

/-- A space does not start a line. -/
theorem count_splitAt_spaced (front back : List Char) (n : Nat) :
    (splitAt (front ++ ' ' :: back) (Relocation.start (.spaced (Text.byteLength front)) n)).1.count '\n' =
      (splitAt (front ++ back) n).1.count '\n' := by
  have hspace : Char.utf8Size ' ' = 1 := rfl
  have hlength : Text.byteLength (front ++ ' ' :: back) = Text.byteLength (front ++ back) + 1 := by
    rw [Text.byteLength_append, Text.byteLength_append, Text.byteLength_cons, hspace]
    omega
  have hcount (cs : List Char) : (' ' :: cs).count '\n' = cs.count '\n' :=
    List.count_cons_of_ne (by decide)
  rw [splitAt, splitAt, hlength, Relocation.spaced]
  dsimp only
  by_cases hn : Text.byteLength front ≤ n
  · obtain ⟨k, rfl⟩ := Nat.exists_eq_add_of_le hn
    obtain ⟨j, hj⟩ : ∃ j, j = min k (Text.byteLength back) := ⟨_, rfl⟩
    have hmin : min (Text.byteLength front + k) (Text.byteLength (front ++ back)) =
        Text.byteLength front + j := by
      rw [Text.byteLength_append]
      omega
    have hmin' : min (Text.byteLength front + k + 1) (Text.byteLength (front ++ back) + 1) =
        Text.byteLength front + (j + 1) := by omega
    rw [if_pos hn, hmin, hmin', Text.splitAtByte?_append_add, Text.splitAtByte?_append_add,
      Text.splitAtByte?, if_pos (by rw [hspace]; omega), hspace, Nat.add_sub_cancel]
    cases Text.splitAtByte? back j <;> simp [hcount]
  · have hmin : min n (Text.byteLength (front ++ back)) = n := by
      rw [Text.byteLength_append]
      omega
    have hmin' : min n (Text.byteLength (front ++ back) + 1) = n := by omega
    rw [if_neg hn, hmin, hmin', Text.splitAtByte?_append_of_le _ (by omega),
      Text.splitAtByte?_append_of_le _ (by omega)]
    cases Text.splitAtByte? front n <;> simp [hcount]

end Source

/-! ## Candidates -/

variable {ρ : Relocation}

theorem Decorator.strings_relocate (ds : List Decorator) (name : String) :
    strings (ds.map (relocate ρ)) name = strings ds name := by
  rw [strings, strings, List.filter_map, List.filterMap_map]
  rfl

theorem jobMarker?_relocate (ds : List Decorator) (name : String) :
    jobMarker? (ds.map (Decorator.relocate ρ)) name = jobMarker? ds name := by
  rw [jobMarker?, jobMarker?, Decorator.strings_relocate, List.any_map]
  rfl

theorem groupMarker?_relocate (ds : List Decorator) (name : String) :
    groupMarker? (ds.map (Decorator.relocate ρ)) name = groupMarker? ds name := by
  rw [groupMarker?, groupMarker?, Decorator.strings_relocate]

namespace Candidate

variable {front back : String} {config : Config} {path : Path}

theorem ofClass?_spaced (c : ClassDecl) :
    ofClass? path (front ++ " " ++ back) config (c.relocate (.spaced (Text.byteLength front.toList))) =
      ofClass? path (front ++ back) config c := by
  have hline : (Source.locate (front ++ " " ++ back)
      (c.relocate (.spaced (Text.byteLength front.toList))).span).line =
        (Source.locate (front ++ back) c.span).line := by
    have hcount := Source.count_splitAt_spaced front.toList back.toList c.span.start
    simpa [Source.line_locate, ClassDecl.relocate, Span.relocate] using hcount
  rw [ofClass?, ofClass?, hline]
  simp only [ClassDecl.relocate, jobMarker?_relocate, groupMarker?_relocate]

theorem ofSource_spaced (o : Outline) :
    ofSource config ⟨path, front ++ " " ++ back, o.relocate (.spaced (Text.byteLength front.toList))⟩ =
      ofSource config ⟨path, front ++ back, o⟩ := by
  rw [ofSource, ofSource, Outline.relocate]
  dsimp only
  rw [List.mapM_map]
  simp only [Function.comp_def, ofClass?_spaced]

end Candidate

/-! ## References -/

theorem Reference.ofTokens_relocate (previous : Option TokenKind) (ts : List Token) :
    ofTokens previous (ts.map (Token.relocate ρ)) = ofTokens previous ts := by
  induction ts generalizing previous with
  | nil => rfl
  | cons t ts ih =>
    rw [List.map_cons, ofTokens, ofTokens, ih, List.head?_map, Option.map_map]
    rfl

namespace Outline

variable {source : String} {o : Outline} {ts us : List Token} {t u : Token} {p : Nat}

/-- A source has the same tokens, outline, candidates and references when a space is put at the end of a
token, or at the start of the next one unless that is a `!`. Only the places of what stands behind the
space are one byte further on. -/
theorem space_immaterial (ho : ofSource source = .ok o)
    (hts : tokenize source = .ok (ts ++ t :: u :: us)) (hu : u.kind ≠ .operator "!")
    (hp : p = t.span.stop ∨ p = u.span.start) :
    ∃ front back, source = front ++ back ∧ Text.byteLength front.toList = p ∧
      tokenize (front ++ " " ++ back) =
        .ok ((ts ++ t :: u :: us).map (Token.relocate (.spaced p))) ∧
      ofSource (front ++ " " ++ back) = .ok (o.relocate (.spaced p)) ∧
      (∀ config path,
        Candidate.ofSource config ⟨path, front ++ " " ++ back, o.relocate (.spaced p)⟩ =
          Candidate.ofSource config ⟨path, source, o⟩) ∧
      Reference.lexical (front ++ " " ++ back) = Reference.lexical source := by
  obtain ⟨front, back, rfl, rfl, hspaced⟩ := tokenize_spaced hts hu hp
  refine ⟨front, back, rfl, rfl, hspaced, ?_, fun config path => Candidate.ofSource_spaced o, ?_⟩
  · have houtline : ofTokens (Token.relocateAll (.spaced (Text.byteLength front.toList)) []
        (ts ++ t :: u :: us)) = .ok (o.relocate _ ++ (∅ : Outline)) :=
      ofTokens_relocate startLine_nil (ofTokens_of_ofSource ho hts) (.inr rfl) ofTokens_nil
    rw [append_empty, Token.relocateAll, List.append_nil] at houtline
    rw [ofSource, hspaced]
    exact houtline
  · rw [Reference.lexical, Reference.lexical, hspaced, hts, Except.map, Except.map,
      Reference.ofTokens_relocate]

/-- A space between the name of a class and its body. -/
theorem bodyAfterName_spaced :
    let decl (n : Nat) : ClassDecl :=
      { name := some "A", decorators := [⟨"job", none, ⟨0, 4⟩⟩], exported := .notExported
        span := ⟨0, n + 2⟩, body := ⟨n, n + 2⟩ }
    ofSource "@job class A\x7b\x7d" = .ok ⟨[], [decl 12]⟩ ∧
      ofSource "@job class A \x7b\x7d" = .ok ⟨[], [decl 13]⟩ ∧
      ∀ config path,
        Candidate.ofSource config ⟨path, "@job class A \x7b\x7d", ⟨[], [decl 13]⟩⟩ =
          Candidate.ofSource config ⟨path, "@job class A\x7b\x7d", ⟨[], [decl 12]⟩⟩ := by
  intro decl
  have ho : ofSource "@job class A\x7b\x7d" = .ok ⟨[], [decl 12]⟩ := by decide +kernel
  have hts : tokenize "@job class A\x7b\x7d" =
      .ok ([⟨.atSign, ⟨0, 1⟩, false⟩, ⟨.ident "job", ⟨1, 4⟩, false⟩, ⟨.ident "class", ⟨5, 10⟩, false⟩] ++
        ⟨.ident "A", ⟨11, 12⟩, false⟩ :: ⟨.opening .brace, ⟨12, 13⟩, false⟩ ::
          [⟨.closing .brace, ⟨13, 14⟩, false⟩]) := by
    decide +kernel
  obtain ⟨front, back, hsource, hlength, -, houtline, hcandidates, -⟩ :=
    space_immaterial ho hts (by decide) (.inl rfl)
  have hcut : "@job class A".toList ++ "\x7b\x7d".toList = front.toList ++ back.toList := by
    rw [← String.toList_append, ← String.toList_append, ← hsource]
    rfl
  have hfront := Text.eq_of_append_eq hcut (by rw [hlength]; decide +kernel)
  have hback := List.append_cancel_left (hfront ▸ hcut)
  rw [String.toList_inj] at hfront hback
  subst hfront hback
  exact ⟨ho, houtline, hcandidates⟩

/-- Behind a space a `!` does not end an operand, and a slash after it is no division. -/
example : (tokenize "x!/2/1").map (·.map (·.kind)) ≠ (tokenize "x !/2/1").map (·.map (·.kind)) := by
  decide +kernel

end Outline

end JobBundler
