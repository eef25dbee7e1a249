import JobBundler.Proofs.Token.Reads
import Mathlib.Data.List.Find

/-!
# What a lexeme depends on

The reading of a lexeme looks at what follows it: at the next character, and where a punctuator stands at
as many as a longer one has (`Lexeme.next_append_of`). It never looks past a closing bracket, and no
further than to the end of a line at the end of a text. So the lexemes up to a closing bracket are the
same whatever follows the bracket, and those of a text are the same when lines follow it
(`Lexeme.next_of_sameFront`, `Lexeme.next_of_closing`).
-/

namespace JobBundler

/-- Whether the character closes a bracket. -/
def isClosing (c : Char) : Bool :=
  [')', ']', '}'].contains c

/-- Two texts that are the same up to a closing bracket in both, or of which the first one ends where a
line ends in the second one. -/
inductive SameFront : List Char → List Char → Prop
  | closing {c : Char} {as bs : List Char} (h : isClosing c) : SameFront (c :: as) (c :: bs)
  | lineEnd {bs : List Char} : SameFront [] ('\n' :: bs)
  | cons {c : Char} {as bs : List Char} (h : SameFront as bs) : SameFront (c :: as) (c :: bs)

/-- Two texts that start with the same character, or of which the first one is empty and a line ends at
the start of the second one. -/
def SameHead (as bs : List Char) : Prop :=
  as.head? = bs.head? ∨ as.head? = none ∧ bs.head? = some '\n'

/-- Two texts of which the second one starts with the same character as the first one, or with a
character that ends most tokens. -/
def SameHeadOrBlank (as bs : List Char) : Prop :=
  bs.head? = as.head? ∨ bs.head? = some '\n' ∨ bs.head? = some ' '

variable {as bs cs rest rest' : List Char}

namespace SameHeadOrBlank

theorem any_of_any (h : SameHeadOrBlank as bs) {p : Char → Bool} (hline : p '\n' = false)
    (hspace : p ' ' = false) (hb : bs.head?.any p) : as.head?.any p := by
  rcases h with h | h | h <;> rw [h] at hb
  · exact hb
  · rw [Option.any_some, hline] at hb
    cases hb
  · rw [Option.any_some, hspace] at hb
    cases hb

theorem any_eq_false (h : SameHeadOrBlank as bs) {p : Char → Bool} (hline : p '\n' = false)
    (hspace : p ' ' = false) (ha : as.head?.any p = false) : bs.head?.any p = false :=
  Bool.eq_false_iff.2 fun hb => Bool.eq_false_iff.1 ha (h.any_of_any hline hspace hb)

theorem append (h : SameHeadOrBlank as bs) (cs : List Char) :
    SameHeadOrBlank (cs ++ as) (cs ++ bs) := by
  cases cs with
  | nil => exact h
  | cons c cs => exact .inl rfl

end SameHeadOrBlank

namespace SameHead

theorem orBlank (h : SameHead as bs) : SameHeadOrBlank as bs :=
  h.imp Eq.symm fun h => .inl h.2

theorem any_eq (h : SameHead as bs) {p : Char → Bool} (hp : p '\n' = false) :
    as.head?.any p = bs.head?.any p := by
  rcases h with h | ⟨ha, hb⟩
  · rw [h]
  · rw [ha, hb, Option.any_none, Option.any_some, hp]

end SameHead

namespace SameFront

theorem append (h : SameFront as bs) (cs : List Char) : SameFront (cs ++ as) (cs ++ bs) := by
  induction cs with
  | nil => exact h
  | cons c cs ih => exact .cons ih

theorem sameHead (h : SameFront as bs) : SameHead as bs := by
  cases h with
  | closing => exact .inl rfl
  | lineEnd => exact .inr ⟨rfl, rfl⟩
  | cons => exact .inl rfl

theorem isPrefixOf_eq (h : SameFront as bs) {p : List Char}
    (hp : p.all fun c => !isClosing c && c != '\n') : p.isPrefixOf as = p.isPrefixOf bs := by
  induction p generalizing as bs with
  | nil => rw [List.isPrefixOf_nil_left, List.isPrefixOf_nil_left]
  | cons a p ih =>
    rw [List.all_cons, Bool.and_eq_true, Bool.and_eq_true] at hp
    obtain ⟨⟨hclosing, hline⟩, hp⟩ := hp
    cases h with
    | @closing c _ _ hc =>
      have hne : (a == c) = false := by
        rw [beq_eq_false_iff_ne]
        rintro rfl
        simp [hc] at hclosing
      rw [List.isPrefixOf_cons_cons, List.isPrefixOf_cons_cons, hne, Bool.false_and, Bool.false_and]
    | lineEnd =>
      rw [List.isPrefixOf_cons_cons, beq_eq_false_iff_ne.2 (by simpa using hline),
        Bool.false_and]
      rfl
    | cons h => rw [List.isPrefixOf_cons_cons, List.isPrefixOf_cons_cons, ih h hp]

end SameFront

/-! ## Gaps and literals -/

theorem takeWhile_of_sameHeadOrBlank {p : Char → Bool} (hline : p '\n' = false)
    (hspace : p ' ' = false) (ht : (as ++ rest).takeWhile p = as)
    (hd : (as ++ rest).dropWhile p = rest) (hh : SameHeadOrBlank rest rest') :
    (as ++ rest').takeWhile p = as ∧ (as ++ rest').dropWhile p = rest' := by
  have hall : as.all p := by
    rw [← ht]
    exact List.all_takeWhile
  refine takeWhile_append_of_all hall ?_
  have hstops : rest.head?.any p = false := by
    have hhead := List.head?_dropWhile_not p (as ++ rest)
    rw [hd] at hhead
    cases rest with
    | nil => rfl
    | cons a as => simpa using hhead
  have hstops' := hh.any_eq_false hline hspace hstops
  cases rest' with
  | nil => rfl
  | cons c cs => simpa using hstops'

namespace Trivia

theorem blockComment?_append_of {body : List Char} (h : blockComment? cs = some (body, rest))
    (rest' : List Char) : blockComment? (body ++ rest') = some (body, rest') := by
  fun_induction blockComment? cs generalizing body with
  | case1 => cases h
  | case2 cs => cases h; rfl
  | case3 c cs hne ih =>
    obtain ⟨⟨b, r⟩, hb, heq⟩ := Option.map_eq_some_iff.1 h
    cases heq
    have hcs := blockComment?_append hb
    rw [List.cons_append, blockComment?, ih hb]
    · rfl
    · rintro more rfl hmore
      cases b with
      | nil =>
        unfold blockComment? at hb
        split at hb
        · cases hb
        · cases hb
        · obtain ⟨_, -, heq⟩ := Option.map_eq_some_iff.1 hb
          cases heq
      | cons a b =>
        cases hmore
        exact hne _ rfl hcs.symm

/-- What follows a gap is neither white space nor the start of a comment. -/
theorem apart_of_gap {g : List Char} {c : Char} (h : gap as = .ok (g, c :: cs)) :
    isSpace c = false ∧ (c = '/' → cs.head?.any (fun c => c == '/' || c == '*') = false) := by
  fun_induction gap as generalizing g with
  | case1 line ih =>
    obtain ⟨g', hg', -⟩ := extendGap_eq_ok_iff.1 h
    exact ih hg'
  | case2 => cases h
  | case3 more body rest' hb ih =>
    obtain ⟨g', hg', -⟩ := extendGap_eq_ok_iff.1 h
    exact ih hg'
  | case4 c' rest' hline hblock hs ih =>
    obtain ⟨g', hg', -⟩ := extendGap_eq_ok_iff.1 h
    exact ih hg'
  | case5 c' rest' hline hblock hs =>
    cases h
    refine ⟨Bool.eq_false_iff.2 hs, ?_⟩
    rintro rfl
    cases cs with
    | nil => rfl
    | cons d ds =>
      have hslash : d ≠ '/' := by
        rintro rfl
        exact hline _ rfl rfl
      have hstar : d ≠ '*' := by
        rintro rfl
        exact hblock _ rfl rfl
      simp [hslash, hstar]
  | case6 => cases h

/-- Two gaps one after the other are one. -/
theorem gap_append_gap {g g' : List Char} {c : Char} (h : gap as = .ok (g, c :: cs))
    (h' : gap bs = .ok (g', rest)) : gap (g ++ bs) = .ok (g ++ g', rest) := by
  fun_induction gap as generalizing g with
  | case1 line ih =>
    obtain ⟨g₁, hg₁, rfl⟩ := extendGap_eq_ok_iff.1 h
    have hline := gap_append hg₁
    have hends := List.head?_dropWhile_not (!endsLineComment ·) line
    -- The end of the line belongs to the gap, so what follows the gap is never read as the comment.
    have hends' : (g₁ ++ bs).head?.all (!(!endsLineComment ·) ·) := by
      rw [← hline] at hends
      cases g₁ with
      | nil =>
        have hc := (apart_of_gap hg₁).1
        have hend : endsLineComment c := by simpa using hends
        simp only [endsLineComment, Bool.or_eq_true, beq_iff_eq] at hend
        rcases hend with rfl | rfl <;> cases hc
      | cons a g₁ => simpa using hends
    obtain ⟨htake, hdrop⟩ := takeWhile_append_of_all
      (List.all_takeWhile (p := (!endsLineComment ·)) (l := line)) hends'
    simp only [List.cons_append, List.append_assoc]
    rw [gap, htake, hdrop, ih hg₁]
    rfl
  | case2 => cases h
  | case3 more body rest' hb ih =>
    obtain ⟨g₁, hg₁, rfl⟩ := extendGap_eq_ok_iff.1 h
    simp only [List.cons_append, List.append_assoc]
    rw [gap_of_blockComment (blockComment?_append_of hb _), ih hg₁]
    rfl
  | case4 c' rest' hline hblock hs ih =>
    obtain ⟨g₁, hg₁, rfl⟩ := extendGap_eq_ok_iff.1 h
    rw [List.append_assoc, List.singleton_append, gap_cons_of_isSpace hs, ih hg₁]
    rfl
  | case5 =>
    cases h
    exact h'
  | case6 => cases h

theorem gap_of_apart {c : Char} (hspace : isSpace c = false)
    (hcomment : c = '/' → cs.head?.any (fun c => c == '/' || c == '*') = false) :
    gap (c :: cs) = .ok ([], c :: cs) := by
  rw [gap, if_neg (by simp [hspace])]
  · rintro more rfl rfl
    exact absurd (hcomment rfl) (by simp)
  · rintro more rfl rfl
    exact absurd (hcomment rfl) (by simp)

/-- A gap ends before a character that neither is white space nor starts a comment. -/
theorem gap_append_of {g : List Char} {c : Char} (h : gap as = .ok (g, c :: cs))
    (hc : c = '/' → SameHeadOrBlank cs bs) : gap (g ++ c :: bs) = .ok (g, c :: bs) := by
  obtain ⟨hspace, hcomment⟩ := apart_of_gap h
  have hempty : gap (c :: bs) = .ok ([], c :: bs) :=
    gap_of_apart hspace fun hslash => (hc hslash).any_eq_false rfl rfl (hcomment hslash)
  rw [gap_append_gap h hempty, List.append_nil]

end Trivia

namespace Literal

theorem isNameContinue_of_isNameStart {c : Char} (h : isNameStart c) : isNameContinue c := by
  simp only [isNameStart, Bool.or_eq_true] at h
  simp only [isNameContinue, Text.isAlphanumeric, Bool.or_eq_true]
  exact .inl (.inl (h.imp_left fun h => h.imp_left .inl))

variable {radix : Bool} {previous a : Char}

theorem numberText_nil_iff :
    numberText radix previous rest = ([], rest) ↔
      rest.head?.any (continuesNumber radix previous) = false := by
  cases rest with
  | nil => exact iff_of_true rfl rfl
  | cons c cs =>
    rw [numberText, List.head?_cons, Option.any_some]
    split
    · rename_i hc
      rw [hc]
      exact iff_of_false (fun h => List.cons_ne_nil _ _ (congrArg Prod.fst h)) (by simp)
    · exact iff_of_true rfl (Bool.eq_false_iff.2 ‹_›)

theorem numberText_cons_iff :
    numberText radix previous (a :: as ++ rest) = (a :: as, rest) ↔
      continuesNumber radix previous a ∧ numberText radix a (as ++ rest) = (as, rest) := by
  rw [List.cons_append, numberText]
  split
  · rename_i ha
    rw [and_iff_right ha, Prod.ext_iff, Prod.ext_iff]
    exact and_congr_left' (List.cons_inj_right a)
  · rename_i ha
    exact iff_of_false (fun h => List.cons_ne_nil _ _ (congrArg Prod.fst h).symm) (absurd ·.1 ha)

theorem numberText_append_of (h : numberText radix previous (as ++ rest) = (as, rest))
    (hh : SameHeadOrBlank rest rest') :
    numberText radix previous (as ++ rest') = (as, rest') := by
  induction as generalizing previous with
  | nil =>
    exact numberText_nil_iff.2 (hh.any_eq_false (by cases radix <;> rfl) (by cases radix <;> rfl)
      (numberText_nil_iff.1 h))
  | cons a as ih =>
    obtain ⟨ha, h⟩ := numberText_cons_iff.1 h
    exact numberText_cons_iff.2 ⟨ha, ih h⟩

/-- Letters and digits belong to a number. -/
theorem head?_of_numberText (h : numberText radix previous (as ++ rest) = (as, rest)) :
    rest.head?.any Char.isAlphanum = false := by
  induction as generalizing previous with
  | nil =>
    have hstops : rest.head?.any (continuesNumber radix previous) = false := numberText_nil_iff.1 h
    cases rest with
    | nil => rfl
    | cons c cs =>
      simp only [List.head?_cons, Option.any_some, continuesNumber, Bool.or_eq_false_iff] at hstops ⊢
      exact hstops.1.1.1
  | cons a as ih => exact ih (numberText_cons_iff.1 h).2

theorem isDigit_head?_of_numberText (h : numberText radix previous (as ++ rest) = (as, rest)) :
    rest.head?.any Char.isDigit = false := by
  have hhead := head?_of_numberText h
  cases rest with
  | nil => rfl
  | cons c cs =>
    simp only [List.head?_cons, Option.any_some, Char.isAlphanum, Bool.or_eq_false_iff] at hhead ⊢
    exact hhead.2

theorem hasRadix_cons (a : Char) (cs : List Char) :
    hasRadix (a :: cs) =
      (a == '0' && cs.head?.any ['x', 'X', 'o', 'O', 'b', 'B'].contains) := by
  unfold hasRadix
  split
  · rename_i h
    cases h
    rfl
  · rename_i hne
    cases cs with
    | nil => rw [List.head?_nil, Option.any_none, Bool.and_false]
    | cons c cs =>
      have ha : (a == '0') = false := beq_eq_false_iff_ne.2 fun ha => hne c cs (ha ▸ rfl)
      rw [ha, Bool.false_and]

/-- A letter after the first digit would belong to the number. -/
theorem head?_any_of_isAlphanum (h : rest.head?.any Char.isAlphanum = false) :
    rest.head?.any ['x', 'X', 'o', 'O', 'b', 'B'].contains = false := by
  have hall : ['x', 'X', 'o', 'O', 'b', 'B'].all Char.isAlphanum := by decide
  cases rest with
  | nil => rfl
  | cons c cs =>
    refine Bool.eq_false_iff.2 fun hc => Bool.eq_false_iff.1 h ?_
    exact List.all_eq_true.1 hall c (by simpa using hc)

theorem number_append_of (hne : as ≠ []) (h : number (as ++ rest) = (as, rest))
    (hh : SameHeadOrBlank rest rest') : number (as ++ rest') = (as, rest') := by
  have hradix : hasRadix (as ++ rest) = hasRadix (as ++ rest') := by
    obtain ⟨a, as, rfl⟩ := List.exists_cons_of_ne_nil hne
    rw [List.cons_append, List.cons_append, hasRadix_cons, hasRadix_cons]
    cases as with
    | cons b bs => rfl
    | nil =>
      have hhead := head?_of_numberText h
      rw [List.nil_append, List.nil_append, head?_any_of_isAlphanum hhead,
        head?_any_of_isAlphanum (hh.any_eq_false rfl rfl hhead)]
  rw [number, hradix] at h
  exact numberText_append_of h hh

theorem stringBody_append_of {quote : Char} {body : List Char} (hq : quote = '"' ∨ quote = '\'')
    (h : stringBody quote cs = (body, some rest)) (rest' : List Char) :
    stringBody quote (body ++ quote :: rest') = (body, some rest') := by
  fun_induction stringBody quote cs generalizing body with
  | case1 => cases h
  | case2 cs ih =>
    obtain ⟨hbody, hrest⟩ := Prod.mk.inj h
    subst hbody
    have ih := ih (Prod.ext rfl hrest)
    show stringBody quote ('\\' :: '\r' :: '\n' :: (_ ++ quote :: rest')) = _
    rw [stringBody, ih]
    rfl
  | case3 c cs hne ih =>
    obtain ⟨hbody, hrest⟩ := Prod.mk.inj h
    subst hbody
    have hcs := stringBody_append hrest
    have ih := ih (Prod.ext rfl hrest)
    show stringBody quote ('\\' :: c :: (_ ++ quote :: rest')) = _
    rw [stringBody, ih]
    · rfl
    · rintro more rfl hmore
      generalize (stringBody quote cs).1 = b at hcs hmore
      cases b with
      | nil =>
        obtain ⟨rfl, -⟩ := List.cons.inj hmore
        simp at hq
      | cons a b =>
        cases hmore
        exact hne _ rfl hcs.symm
  | case4 cs hcr hescape =>
    cases h
    rw [List.nil_append, stringBody, if_pos rfl]
    · rintro more rfl
      simp at hq
    · rintro c more rfl
      simp at hq
  | case5 => cases h
  | case6 c cs hcr hescape hquote hline ih =>
    obtain ⟨hbody, hrest⟩ := Prod.mk.inj h
    subst hbody
    have ih := ih (Prod.ext rfl hrest)
    have hne : cs ≠ [] := by
      rintro rfl
      cases hrest
    show stringBody quote (c :: (_ ++ quote :: rest')) = _
    rw [stringBody, if_neg hquote, if_neg hline, ih]
    · rfl
    · rintro more rfl
      obtain ⟨c, cs, rfl⟩ := List.exists_cons_of_ne_nil hne
      exact absurd rfl (hescape c cs rfl)
    · rintro c' more rfl
      obtain ⟨c, cs, rfl⟩ := List.exists_cons_of_ne_nil hne
      exact absurd rfl (hescape c cs rfl)

theorem templateChunk?_append_of {text : List Char} {chunkEnd : ChunkEnd}
    (h : templateChunk? cs = some (text, chunkEnd, rest)) (rest' : List Char) :
    templateChunk? (text ++ (chunkEnd.text ++ rest')) = some (text, chunkEnd, rest') := by
  fun_induction templateChunk? cs generalizing text with
  | case1 => cases h
  | case2 => cases h; rfl
  | case3 => cases h; rfl
  | case4 c cs ih =>
    obtain ⟨⟨t, e, r⟩, ht, heq⟩ := Option.map_eq_some_iff.1 h
    cases heq
    simp only [List.cons_append]
    rw [templateChunk?, ih ht]
    rfl
  | case5 c cs hend hsub hescape ih =>
    obtain ⟨⟨t, e, r⟩, ht, heq⟩ := Option.map_eq_some_iff.1 h
    cases heq
    have hcs := templateChunk?_append ht
    have hhead : (t ++ (chunkEnd.text ++ rest')).head? = cs.head? := by
      rw [← hcs, List.append_assoc]
      cases t <;> cases chunkEnd <;> rfl
    rw [List.cons_append, templateChunk?, ih ht]
    · rfl
    · exact hend
    · rintro more rfl hmore
      rw [hmore] at hhead
      obtain ⟨cs', rfl⟩ := List.head?_eq_some_iff.1 hhead.symm
      exact hsub _ rfl rfl
    · rintro c' more rfl hmore
      rw [hmore] at hhead
      obtain ⟨cs', rfl⟩ := List.head?_eq_some_iff.1 hhead.symm
      exact hescape _ _ rfl rfl

theorem regexBody_append_of {inClass : Bool} {body : List Char}
    (h : regexBody inClass cs = (body, some rest)) (rest' : List Char) :
    regexBody inClass (body ++ rest') = (body, some rest') := by
  fun_induction regexBody inClass cs generalizing body with
  | case1 => cases h
  | case2 => cases h
  | case3 inClass c cs hline ih =>
    obtain ⟨hbody, hrest⟩ := Prod.mk.inj h
    subst hbody
    have ih := ih (Prod.ext rfl hrest)
    show regexBody inClass ('\\' :: c :: (_ ++ rest')) = _
    rw [regexBody, if_neg hline, ih]
    rfl
  | case4 => cases h
  | case5 inClass c cs hescape hline hslash =>
    cases h
    obtain ⟨rfl, rfl⟩ := hslash
    rw [List.singleton_append, regexBody, if_neg hline, if_pos ⟨rfl, rfl⟩]
    rintro c' more ⟨⟩
  | case6 inClass c cs hescape hline hslash ih =>
    obtain ⟨hbody, hrest⟩ := Prod.mk.inj h
    subst hbody
    have ih := ih (Prod.ext rfl hrest)
    have hne : cs ≠ [] := by
      rintro rfl
      cases hrest
    show regexBody inClass (c :: (_ ++ rest')) = _
    rw [regexBody, if_neg hline, if_neg hslash, ih]
    · rfl
    · rintro c' more rfl
      obtain ⟨c, cs, rfl⟩ := List.exists_cons_of_ne_nil hne
      exact absurd rfl (hescape c cs rfl)

end Literal

/-! ## Punctuators -/

namespace Punctuator

theorem startsWith_eq {p : String} (hp : p ∈ long) {cs cs' : List Char} (h : SameFront cs cs') :
    startsWith cs p = startsWith cs' p := by
  have hchars : ∀ p ∈ long, p.toList.all fun c => !isClosing c && c != '\n' := by decide
  rw [startsWith, startsWith, h.isPrefixOf_eq (hchars p hp)]
  by_cases hq : p = "?."
  · subst hq
    by_cases hfront : "?.".toList.isPrefixOf cs'
    · obtain ⟨cs', rfl⟩ := List.isPrefixOf_iff_prefix.1 hfront
      have hdrop : (cs.drop 2).head?.any Char.isDigit = cs'.head?.any Char.isDigit := by
        cases h with
        | closing hc => cases hc
        | cons h =>
          cases h with
          | closing hc => cases hc
          | cons h => exact h.sameHead.any_eq rfl
      rw [hdrop]
      rfl
    · rw [Bool.eq_false_iff.2 hfront, Bool.false_and, Bool.false_and]
  · rw [beq_eq_false_iff_ne.2 hq, Bool.false_and, Bool.false_and]

theorem front?_append_of (hne : as ≠ []) (h : front? (as ++ rest) = some as)
    (hs : SameFront rest rest') : front? (as ++ rest') = some as := by
  have hlong : long.find? (startsWith (as ++ rest)) = long.find? (startsWith (as ++ rest')) :=
    List.find?_congr fun p hp => startsWith_eq hp (hs.append as)
  obtain ⟨a, as, rfl⟩ := List.exists_cons_of_ne_nil hne
  unfold front? at h ⊢
  rw [hlong] at h
  generalize long.find? (startsWith (a :: as ++ rest')) = found at h ⊢
  cases found <;> exact h

end Punctuator

/-! ## Lexemes -/

namespace Lexeme

variable {ctx ctx' : Context} {kind : TokenKind} {tl : List Char}

theorem isNameContinue_lineEnd : Literal.isNameContinue '\n' = false := by decide

theorem isNameContinue_space : Literal.isNameContinue ' ' = false := by decide

theorem readChunk_append_of {c : Char} (h : readChunk ctx c cs = .ok ⟨kind, c :: tl, ctx', rest⟩)
    (rest' : List Char) : readChunk ctx c (tl ++ rest') = .ok ⟨kind, c :: tl, ctx', rest'⟩ := by
  unfold readChunk at h
  split at h
  · cases h
  all_goals
    rename_i hc
    cases h
    rw [List.append_assoc, readChunk, Literal.templateChunk?_append_of hc]

theorem readString_append_of {c : Char} (hc : c = '"' ∨ c = '\'')
    (h : readString ctx c cs = .ok ⟨kind, c :: tl, ctx', rest⟩) (rest' : List Char) :
    readString ctx c (tl ++ rest') = .ok ⟨kind, c :: tl, ctx', rest'⟩ := by
  unfold readString at h
  split at h
  · cases h
  · rename_i body more hb
    cases h
    rw [List.append_assoc, List.singleton_append, readString, Literal.stringBody_append_of hc hb]

theorem readRegex_append_of (h : readRegex ctx (tl ++ rest) = .ok ⟨kind, '/' :: tl, ctx', rest⟩)
    (hh : SameHeadOrBlank rest rest') :
    readRegex ctx (tl ++ rest') = .ok ⟨kind, '/' :: tl, ctx', rest'⟩ := by
  unfold readRegex at h
  split at h
  · cases h
  · rename_i body more hb
    simp only [Except.ok.injEq, Reading.mk.injEq, List.cons.injEq, true_and] at h
    obtain ⟨rfl, rfl, rfl, rfl⟩ := h
    have hflags := List.takeWhile_append_dropWhile (p := Literal.isNameContinue) (l := more)
    obtain ⟨htake, hdrop⟩ := takeWhile_of_sameHeadOrBlank isNameContinue_lineEnd isNameContinue_space
      (by rw [hflags]) (by rw [hflags]) hh
    rw [List.append_assoc, readRegex, Literal.regexBody_append_of hb]
    simp only [htake, hdrop]

theorem readClosingBrace_append_of
    (h : readClosingBrace ctx (tl ++ rest) = .ok ⟨kind, '}' :: tl, ctx', rest⟩)
    (rest' : List Char) :
    readClosingBrace ctx (tl ++ rest') = .ok ⟨kind, '}' :: tl, ctx', rest'⟩ := by
  unfold readClosingBrace at h ⊢
  split at h
  · rename_i hs
    rw [if_pos hs]
    exact readChunk_append_of h rest'
  · rename_i hs
    rw [if_neg hs]
    split at h
    · cases h
    · rename_i hd
      rw [if_neg hd]
      cases h
      rfl

/-- The text is the same punctuator before `rest'` if it is one before `rest`. -/
def SamePunctuator (text rest rest' : List Char) : Prop :=
  Punctuator.front? (text ++ rest) = some text → Punctuator.front? (text ++ rest') = some text

theorem readPunctuator_append_of {glued : Bool} {c : Char}
    (h : readPunctuator ctx glued c (tl ++ rest) = .ok ⟨kind, c :: tl, ctx', rest⟩)
    (hp : SamePunctuator (c :: tl) rest rest') :
    readPunctuator ctx glued c (tl ++ rest') = .ok ⟨kind, c :: tl, ctx', rest'⟩ := by
  unfold readPunctuator at h
  split at h
  · cases h
  · rename_i text hf
    simp only [Except.ok.injEq, Reading.mk.injEq] at h
    obtain ⟨rfl, rfl, rfl, -⟩ := h
    have hf' := hp hf
    rw [List.cons_append] at hf'
    rw [readPunctuator, hf']
    simp

/-- A point alone is no number: the digit after it would belong to it. -/
theorem startsNumber_append_of {c : Char}
    (h : c.isDigit || (c == '.' && (tl ++ rest).head?.any Char.isDigit))
    (hsplit : Literal.number (c :: tl ++ rest) = (c :: tl, rest)) (rest' : List Char) :
    c.isDigit || (c == '.' && (tl ++ rest').head?.any Char.isDigit) := by
  cases tl with
  | cons d ds => exact h
  | nil =>
    rw [List.nil_append, Literal.isDigit_head?_of_numberText hsplit, Bool.and_false,
      Bool.or_false] at h
    rw [h, Bool.true_or]

theorem startsName_append_of (h : (tl ++ rest).head?.any Literal.isNameStart)
    (htake : (tl ++ rest).takeWhile Literal.isNameContinue = tl) (rest' : List Char) :
    (tl ++ rest').head?.any Literal.isNameStart := by
  cases tl with
  | cons d ds => exact h
  | nil =>
    cases rest with
    | nil => cases h
    | cons d ds =>
      have hd : Literal.isNameContinue d := Literal.isNameContinue_of_isNameStart (by simpa using h)
      rw [List.nil_append, List.takeWhile_cons_of_pos hd] at htake
      cases htake

/-- A token is read in the same way when the text after it is another one that makes it no longer. -/
theorem read_append_of {glued : Bool} {c : Char}
    (h : read ctx glued c (tl ++ rest) = .ok ⟨kind, c :: tl, ctx', rest⟩)
    (hh : SameHeadOrBlank rest rest') (hp : SamePunctuator (c :: tl) rest rest') :
    read ctx glued c (tl ++ rest') = .ok ⟨kind, c :: tl, ctx', rest'⟩ := by
  have hhead := hh.append tl
  unfold read at h ⊢
  by_cases hname : Literal.isNameStart c
  · rw [if_pos hname] at h ⊢
    simp only [Except.ok.injEq, Reading.mk.injEq, List.cons.injEq, true_and] at h
    obtain ⟨rfl, htake, rfl, hdrop⟩ := h
    obtain ⟨htake', hdrop'⟩ := takeWhile_of_sameHeadOrBlank isNameContinue_lineEnd
      isNameContinue_space htake hdrop hh
    simp only [htake, htake', hdrop']
  rw [if_neg hname] at h ⊢
  by_cases hnumber : c.isDigit || (c == '.' && (tl ++ rest).head?.any Char.isDigit)
  · rw [if_pos hnumber] at h
    simp only [Except.ok.injEq, Reading.mk.injEq] at h
    obtain ⟨rfl, htext, rfl, hrest⟩ := h
    have hsplit : Literal.number (c :: tl ++ rest) = (c :: tl, rest) := Prod.ext htext hrest
    have hsplit' := Literal.number_append_of (List.cons_ne_nil c tl) hsplit hh
    rw [if_pos (startsNumber_append_of hnumber hsplit rest')]
    rw [List.cons_append] at hsplit hsplit'
    rw [hsplit, hsplit']
  have hnumber' : ¬(c.isDigit || (c == '.' && (tl ++ rest').head?.any Char.isDigit)) := by
    simp only [Bool.or_eq_true, Bool.and_eq_true] at hnumber ⊢
    exact fun h => hnumber (h.imp_right (And.imp_right (hhead.any_of_any rfl rfl)))
  rw [if_neg hnumber] at h
  rw [if_neg hnumber']
  by_cases hquote : c = '"' ∨ c = '\''
  · rw [if_pos hquote] at h ⊢
    exact readString_append_of hquote h rest'
  rw [if_neg hquote] at h ⊢
  by_cases hchunk : c = '\x60'
  · rw [if_pos hchunk] at h ⊢
    exact readChunk_append_of h rest'
  rw [if_neg hchunk] at h ⊢
  by_cases hopen : c = '{'
  · rw [if_pos hopen] at h ⊢
    cases h
    rfl
  rw [if_neg hopen] at h ⊢
  by_cases hclose : c = '}'
  · rw [if_pos hclose] at h ⊢
    subst hclose
    exact readClosingBrace_append_of h rest'
  rw [if_neg hclose] at h ⊢
  by_cases hprivate : c = '#' ∧ (tl ++ rest).head?.any Literal.isNameStart
  · rw [if_pos hprivate] at h
    simp only [Except.ok.injEq, Reading.mk.injEq, List.cons.injEq, true_and] at h
    obtain ⟨rfl, htake, rfl, hdrop⟩ := h
    obtain ⟨htake', hdrop'⟩ := takeWhile_of_sameHeadOrBlank isNameContinue_lineEnd
      isNameContinue_space htake hdrop hh
    rw [if_pos (hprivate.imp_right (startsName_append_of · htake rest'))]
    simp only [htake, htake', hdrop']
  have hprivate' : ¬(c = '#' ∧ (tl ++ rest').head?.any Literal.isNameStart) :=
    fun h => hprivate (h.imp_right (hhead.any_of_any (by decide) (by decide)))
  rw [if_neg hprivate] at h
  rw [if_neg hprivate']
  by_cases hregex : c = '/' ∧ ctx.regexAllowed
  · rw [if_pos hregex] at h ⊢
    obtain ⟨rfl, -⟩ := hregex
    exact readRegex_append_of h hh
  · rw [if_neg hregex] at h ⊢
    exact readPunctuator_append_of h hp

theorem next_append_of {l : Lexeme} (h : next ctx (l.source ++ rest) = .ok (.lexeme l ctx' rest))
    (hh : SameHeadOrBlank rest rest') (hp : SamePunctuator l.text rest rest') :
    next ctx (l.source ++ rest') = .ok (.lexeme l ctx' rest') := by
  obtain ⟨c, tl, htext, hgap, hread⟩ := next_eq_ok h
  rw [htext] at hp
  have hgap' := Trivia.gap_append_of hgap fun _ => hh.append tl
  rw [source, htext, List.append_assoc, List.cons_append,
    next_of_gap hgap' (read_append_of hread hh hp), ← htext]

theorem next_of_sameFront {l : Lexeme}
    (h : next ctx (l.source ++ rest) = .ok (.lexeme l ctx' rest)) (hs : SameFront rest rest') :
    next ctx (l.source ++ rest') = .ok (.lexeme l ctx' rest') :=
  next_append_of h hs.sameHead.orBlank fun hf => Punctuator.front?_append_of (next_ne_nil h) hf hs

theorem kind_eq_closing {text : List Char} {b : Bracket} (h : Punctuator.kind text = .closing b) :
    text = [')'] ∨ text = [']'] := by
  unfold Punctuator.kind at h
  split at h
  all_goals first | exact .inl rfl | exact .inr rfl | cases h

/-- A closing bracket is read by itself. -/
theorem read_of_closing {glued : Bool} {c : Char} {text : List Char} {b : Bracket}
    (h : read ctx glued c cs = .ok ⟨.closing b, text, ctx', rest⟩) :
    isClosing c ∧ text = [c] ∧
      ∀ rest', read ctx glued c rest' = .ok ⟨.closing b, [c], ctx', rest'⟩ := by
  cases read_eq_ok h with
  | closingBrace hc hs hd =>
    subst hc
    refine ⟨rfl, rfl, fun rest' => ?_⟩
    have hread : read ctx glued '}' rest' = readClosingBrace ctx rest' := rfl
    rw [hread, readClosingBrace, if_neg hs, if_neg hd]
  | punctuator hfront hkind =>
    obtain ⟨more, hmore⟩ := Punctuator.front?_isPrefix hfront
    rcases kind_eq_closing hkind with rfl | rfl
    all_goals
      obtain ⟨rfl, rfl⟩ := List.cons.inj hmore
      cases hkind
      exact ⟨rfl, rfl, fun rest' => rfl⟩

theorem next_of_closing {l : Lexeme} {b : Bracket}
    (h : next ctx cs = .ok (.lexeme l ctx' rest)) (hl : l.kind = .closing b) :
    (∃ c, l.text = [c] ∧ isClosing c) ∧
      ∀ rest', next ctx (l.source ++ rest') = .ok (.lexeme l ctx' rest') := by
  obtain ⟨c, tl, htext, hgap, hread⟩ := next_eq_ok h
  rw [hl] at hread
  obtain ⟨hc, hone, hall⟩ := read_of_closing hread
  rw [hone] at htext
  refine ⟨⟨c, htext, hc⟩, fun rest' => ?_⟩
  have hslash : c ≠ '/' := by
    rintro rfl
    cases hc
  have hgap' : Trivia.gap (l.gap ++ c :: rest') = .ok (l.gap, c :: rest') :=
    Trivia.gap_append_of hgap (absurd · hslash)
  rw [source, htext, List.append_assoc, List.singleton_append, next_of_gap hgap' (hall rest'), ← htext,
    ← hl]

/-- Lexemes are read in the same way when the text after them is another one with the same front. -/
theorem Reads.of_sameFront {ls : List Lexeme} (h : Reads rest ctx ls ctx') (hs : SameFront rest rest') :
    Reads rest' ctx ls ctx' := by
  induction h with
  | nil => exact .nil
  | cons head _ ih => exact .cons (next_of_sameFront head (hs.append _)) ih

/-! ## Lexemes up to a closing bracket -/

variable {last : Lexeme} {ls : List Lexeme} {b : Bracket}

theorem sameFront_source {l : Lexeme} (h : l.text.head?.any isClosing) (rest rest' : List Char) :
    SameFront (l.source ++ rest) (l.source ++ rest') := by
  obtain ⟨c, cs, hc⟩ : ∃ c cs, l.text = c :: cs := by
    cases htext : l.text with
    | nil => simp [htext] at h
    | cons c cs => exact ⟨c, cs, rfl⟩
  rw [hc] at h
  rw [source, hc, List.append_assoc, List.append_assoc]
  exact (SameFront.closing h).append l.gap

theorem Reads.text_of_closing (h : Reads rest ctx (ls ++ [last]) ctx')
    (hlast : last.kind = .closing b) : last.text.head?.any isClosing := by
  obtain ⟨ctx₁, -, h⟩ := h.of_append
  cases h with
  | cons head _ =>
    obtain ⟨c, hc, hclosing⟩ := (next_of_closing head hlast).1
    rw [hc]
    exact hclosing

/-- Lexemes that end in a closing bracket are read from their texts, whatever follows. -/
theorem Reads.of_closing (h : Reads rest ctx (ls ++ [last]) ctx') (hlast : last.kind = .closing b)
    (rest' : List Char) : Reads rest' ctx (ls ++ [last]) ctx' := by
  have hclosing := h.text_of_closing hlast
  induction ls generalizing ctx with
  | nil =>
    cases h with
    | cons head tail =>
      cases tail
      exact .cons ((next_of_closing head hlast).2 _) .nil
  | cons l ls ih =>
    cases h with
    | cons head tail =>
      have hfront : SameFront (sources (ls ++ [last]) ++ rest) (sources (ls ++ [last]) ++ rest') := by
        have := (sameFront_source hclosing rest rest').append (sources ls)
        simpa using this
      exact .cons (next_of_sameFront head hfront) (ih tail)

end Lexeme

end JobBundler
