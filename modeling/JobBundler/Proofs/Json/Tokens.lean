import JobBundler.Json.Reader

/-!
# Texts that are read as tokens

A string literal is read as the text that it was written for, whatever that is (`Tokenizes.literal`). A
text put together from literals, marks and white space is read as their tokens, in order.
-/

namespace JobBundler.Json

/-! ## String literals -/

theorem hexDigit_spec {n : Nat} (h : n < 16) :
    Token.isHexDigit (hexDigit n) ∧ Token.hexValue (hexDigit n) = n := by
  revert n
  decide

/-- The escape of a control character spells its code point. -/
theorem ofHexDigits_control {n : Nat} (h : n < 0x20) :
    [('0' : Char), '0', hexDigit (n / 16), hexDigit (n % 16)].all Token.isHexDigit ∧
      Token.ofHexDigits ['0', '0', hexDigit (n / 16), hexDigit (n % 16)] = n := by
  obtain ⟨hhigh, hhigh'⟩ := hexDigit_spec (n := n / 16) (by omega)
  obtain ⟨hlow, hlow'⟩ := hexDigit_spec (n := n % 16) (by omega)
  have hzero : Token.isHexDigit '0' ∧ Token.hexValue '0' = 0 := by decide
  constructor
  · simp [hhigh, hlow, hzero.1]
  · simp only [Token.ofHexDigits, List.foldl_cons, List.foldl_nil, hzero.2, hhigh', hlow']
    omega

/-- A code unit that is half of nothing stands for itself, whatever comes after it. -/
theorem textOf?_unit {c : Char} (h : c.toNat < 0x20) (ps : List StringPart) :
    textOf? (.unit c.toNat :: ps) = (textOf? ps).map (c :: ·) := by
  have hsurrogate : isHighSurrogate c.toNat = false := by
    simp only [isHighSurrogate, Bool.and_eq_false_iff, decide_eq_false_iff_not]
    omega
  have hcode : Token.charOfCode? c.toNat = some c := by
    have hvalid : c.toNat.isValidChar := c.valid
    rw [Token.charOfCode?, dif_pos hvalid]
    rfl
  rcases ps with _ | ⟨c' | n, ps⟩
  · simp [textOf?, hcode]
  · simp [textOf?, hcode, Option.map_eq_bind, Function.comp_def]
  · simp [textOf?, hcode, hsurrogate, Option.map_eq_bind, Function.comp_def]

theorem stringParts?_shortEscape {e c : Char} (h : shortEscape? e = some c) (cs : List Char) :
    stringParts? ('\\' :: e :: cs) = (stringParts? cs).map fun (ps, rest) => (.char c :: ps, rest) := by
  have hu : e ≠ 'u' := by
    rintro rfl
    cases h
  rw [stringParts?, h]
  intro _ _ _ _ _ he _
  exact hu he

theorem stringParts?_char {c : Char} (hquote : c ≠ '"') (hslash : c ≠ '\\') (hc : ¬c.toNat < 0x20)
    (cs : List Char) :
    stringParts? (c :: cs) = (stringParts? cs).map fun (ps, rest) => (.char c :: ps, rest) := by
  rw [stringParts?, if_neg (not_or.2 ⟨hc, hslash⟩)]
  · exact hquote
  · intro _ _ _ _ _ he _
    exact hslash he
  · intro _ _ he _
    exact hslash he

/-- A character is read again from how it is written in a literal. -/
theorem stringParts?_escapeChar (c : Char) : ∃ p,
    (∀ cs, stringParts? (escapeChar c ++ cs) = (stringParts? cs).map fun (ps, rest) => (p :: ps, rest)) ∧
      ∀ ps, textOf? (p :: ps) = (textOf? ps).map (c :: ·) := by
  have hchar (c : Char) (ps : List StringPart) :
      textOf? (.char c :: ps) = (textOf? ps).map (c :: ·) := by
    rw [textOf?]
  unfold escapeChar
  split
  iterate 7 exact ⟨_, stringParts?_shortEscape rfl, hchar _⟩
  rename_i hquote hslash _ _ _ _ _
  split
  · rename_i hc
    obtain ⟨hall, hvalue⟩ := ofHexDigits_control hc
    refine ⟨.unit c.toNat, ?_, textOf?_unit hc⟩
    intro cs
    show stringParts? ('\\' :: 'u' :: '0' :: '0' :: _ :: _ :: cs) = _
    rw [stringParts?, if_pos hall, hvalue]
  · rename_i hc
    exact ⟨.char c, stringParts?_char hquote hslash hc, hchar c⟩

/-- A literal is read as its text. -/
theorem stringParts?_literal (text rest : List Char) :
    ∃ ps, stringParts? (text.flatMap escapeChar ++ '"' :: rest) = some (ps, rest) ∧
      textOf? ps = some text := by
  induction text with
  | nil => exact ⟨[], by rw [List.flatMap_nil, List.nil_append, stringParts?], by rw [textOf?]⟩
  | cons c cs ih =>
    obtain ⟨ps, hps, htext⟩ := ih
    obtain ⟨p, hp, hc⟩ := stringParts?_escapeChar c
    refine ⟨p :: ps, ?_, ?_⟩
    · rw [List.flatMap_cons, List.append_assoc, hp, hps]
      rfl
    · rw [hc, htext]
      rfl

/-! ## Tokens -/

/-- The text is read as these tokens, whatever comes after it. -/
def Tokenizes (text : String) (ts : List Token) : Prop :=
  ∀ cs, tokens? (text.toList ++ cs) = (tokens? cs).map (ts ++ ·)

namespace Tokenizes

variable {a b : String} {ts us : List Token}

theorem tokens?_eq (h : Tokenizes a ts) : tokens? a.toList = some ts := by
  have ha := h []
  rwa [List.append_nil, tokens?, Option.map_some, List.append_nil] at ha

theorem append (ha : Tokenizes a ts) (hb : Tokenizes b us) : Tokenizes (a ++ b) (ts ++ us) := by
  intro cs
  rw [String.toList_append, List.append_assoc, ha, hb, Option.map_map]
  simp [Function.comp_def]

theorem literal (text : String) : Tokenizes (literal text) [.scalar (.string (some text))] := by
  intro cs
  obtain ⟨ps, hps, htext⟩ := stringParts?_literal text.toList cs
  have hscalar : scalar? '"' (text.toList.flatMap escapeChar ++ '"' :: cs) =
      some (.string (some text), cs) := by
    simp [scalar?, hps, htext]
  have hlist : (Json.literal text).toList ++ cs =
      '"' :: (text.toList.flatMap escapeChar ++ '"' :: cs) := by
    simp [Json.literal]
  have hspace : isSpace '"' = false := by decide
  have hmark : isMark '"' = false := by decide
  rw [hlist, tokens?]
  simp only [hspace, hmark, Bool.false_eq_true, if_false]
  split
  · rename_i h
    rw [hscalar] at h
    cases h
  · rename_i h
    rw [hscalar] at h
    cases h
    rfl

/-- White space between marks does not count. -/
theorem of_marks (h : a.toList.all fun c => isSpace c || isMark c) :
    Tokenizes a ((a.toList.filter fun c => !isSpace c).map .mark) := by
  intro cs
  generalize a.toList = as at h
  induction as with
  | nil => simp
  | cons c as ih =>
    rw [List.all_cons, Bool.and_eq_true] at h
    rw [List.cons_append, tokens?]
    cases hc : isSpace c with
    | true =>
      rw [if_pos rfl, ih h.2, List.filter_cons_of_neg (by simp [hc])]
    | false =>
      have hmark : isMark c := by simpa [hc] using h.1
      rw [if_neg Bool.false_ne_true, if_pos hmark, ih h.2, List.filter_cons_of_pos (by simp [hc]),
        Option.map_map]
      rfl

theorem comma : Tokenizes ",\n" [.mark ','] :=
  of_marks (by decide)

/-- Texts with commas between them are read one after another. -/
theorem intercalate {α : Type} {f : α → String} {g : α → List Token} {as : List α}
    (h : ∀ a ∈ as, Tokenizes (f a) (g a)) :
    Tokenizes (",\n".intercalate (as.map f)) ([.mark ','].intercalate (as.map g)) := by
  induction as with
  | nil =>
    rw [List.map_nil, List.map_nil, String.intercalate_nil]
    exact of_marks (by decide)
  | cons a as ih =>
    have ha := h a List.mem_cons_self
    have ih := ih fun b hb => h b (List.mem_cons_of_mem a hb)
    cases as with
    | nil => simpa [String.intercalate_singleton] using ha
    | cons b bs =>
      rw [List.map_cons, List.map_cons, String.intercalate_cons_cons, List.map_cons, List.map_cons,
        List.intercalate_cons_cons]
      exact (ha.append comma).append ih

end Tokenizes

/-! ## Values -/

/-- The tokens are read as the value in so many steps, whatever comes after them. -/
def IsReadAs (steps : Nat) (ts : List Token) (j : Json) : Prop :=
  ∀ fuel rest, steps ≤ fuel → value? fuel (ts ++ rest) = some (j, rest)

theorem isReadAs_scalar (j : Json) : IsReadAs 0 [.scalar j] j :=
  fun _ _ _ => value?.eq_1 ..

/-- A member of an object, with the tokens of its value. -/
structure Member where
  name : String
  tokens : List Token
  value : Json

namespace Member

/-- The tokens of a member. -/
def named (m : Member) : List Token :=
  .scalar (.string (some m.name)) :: .mark ':' :: m.tokens

/-- The tokens of an object with these members. -/
def braced (ms : List Member) : List Token :=
  .mark '{' :: ([.mark ','].intercalate (ms.map named) ++ [.mark '}'])

/-- An object with these members. -/
def object (ms : List Member) : Json :=
  .object (ms.map fun m => (some m.name, m.value))

variable {steps : Nat} {ms : List Member}

theorem members?_named (hne : ms ≠ []) (h : ∀ m ∈ ms, IsReadAs steps m.tokens m.value) {fuel : Nat}
    (hfuel : steps + ms.length ≤ fuel) (rest : List Token) :
    members? fuel ([Token.mark ','].intercalate (ms.map named) ++ .mark '}' :: rest) =
      some (ms.map fun m => (some m.name, m.value), rest) := by
  induction ms generalizing fuel with
  | nil => exact absurd rfl hne
  | cons m ms ih =>
    rw [List.length_cons] at hfuel
    obtain ⟨fuel, rfl⟩ : ∃ k, fuel = k + 1 := ⟨fuel - 1, by omega⟩
    have hm (rest : List Token) : value? fuel (m.tokens ++ rest) = some (m.value, rest) :=
      h m List.mem_cons_self fuel rest (by omega)
    cases ms with
    | nil => simp [named, members?, hm]
    | cons m' ms =>
      have hrest := ih (List.cons_ne_nil _ _) (fun m hm => h m (List.mem_cons_of_mem _ hm))
        (show steps + (m' :: ms).length ≤ fuel by omega)
      rw [List.map_cons, List.map_cons, List.intercalate_cons_cons, ← List.map_cons]
      simp only [named, List.cons_append, List.append_assoc, List.nil_append, members?, hm, hrest,
        Option.map_some]
      rfl

theorem isReadAs_braced (h : ∀ m ∈ ms, IsReadAs steps m.tokens m.value) :
    IsReadAs (steps + ms.length + 1) (braced ms) (object ms) := by
  intro fuel rest hfuel
  obtain ⟨fuel, rfl⟩ : ∃ k, fuel = k + 1 := ⟨fuel - 1, by omega⟩
  cases ms with
  | nil => simp [braced, object, value?]
  | cons m ms =>
    have hmembers :=
      members?_named (List.cons_ne_nil m ms) h (show steps + (m :: ms).length ≤ fuel by omega) rest
    have hhead : ∃ ts, [Token.mark ','].intercalate ((m :: ms).map named) ++ .mark '}' :: rest =
        .scalar (.string (some m.name)) :: ts := by
      cases ms <;> exact ⟨_, rfl⟩
    obtain ⟨ts, hts⟩ := hhead
    rw [hts] at hmembers
    rw [braced, List.cons_append, List.append_assoc, List.singleton_append, hts, value?, hmembers]
    · rfl
    · intro _ h
      cases h

theorem length_named_le (ms : List Member) :
    2 * ms.length ≤ ([Token.mark ','].intercalate (ms.map named)).length := by
  induction ms with
  | nil => exact Nat.zero_le _
  | cons m ms ih =>
    cases ms with
    | nil => simp [named]
    | cons m' ms =>
      rw [List.map_cons, List.map_cons, List.intercalate_cons_cons, ← List.map_cons]
      simp only [List.length_append, List.length_cons, named] at ih ⊢
      omega

/-- An object whose values take a few steps is read from its text. -/
theorem ofText?_eq {text : String} (ht : Tokenizes text (braced ms))
    (h : ∀ m ∈ ms, IsReadAs steps m.tokens m.value) (hsteps : steps ≤ 5) :
    ofText? text = some (object ms) := by
  have hlength : steps + ms.length + 1 ≤ 2 * (braced ms).length + 2 := by
    have hle := length_named_le ms
    simp only [braced, List.length_cons, List.length_append]
    omega
  have hvalue := isReadAs_braced h _ [] hlength
  rw [List.append_nil] at hvalue
  rw [ofText?, ht.tokens?_eq]
  simp only [bind, Option.bind, hvalue]

end Member

end JobBundler.Json
