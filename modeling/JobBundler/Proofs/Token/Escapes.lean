import JobBundler.Proofs.Json.Tokens
import JobBundler.Proofs.Token.Lossless
import JobBundler.Proofs.Token.Printed
import Mathlib.Algebra.Group.Nat.Defs
import Mathlib.Data.List.TakeWhile

/-!
# Escapes in string literals

The rules for the escapes of a string literal, said apart from the function that reads them
(`documented`): `\x` takes two hexadecimal digits, `\u` takes four, or any number of them in braces, and
two `\u` escapes can be a surrogate pair. An escape that does not have the digits it needs stands for its
letter and the digits that it has. The literals of a source are read by these rules except for the `\u`
escapes that `Deviates` tells, and the literal of the UTF-16 code units of a text is read as the text if
it has no character above U+FFFF (`strings_documented_iff`).
-/

namespace JobBundler.Token

/-! ## Parts of a literal -/

/-- What each part of a body stands for and how long it is, the backslash apart. A part is a character
or an escape, which `rule` reads from the text after the backslash. -/
def parts (rule : List Char → List Char × Nat) : List Char → List (List Char × Nat)
  | [] => []
  | '\\' :: cs => rule cs :: parts rule (cs.drop (rule cs).2)
  | c :: cs => ([c], 1) :: parts rule cs
termination_by cs => cs.length

/-- What a body stands for, when `rule` reads its escapes. -/
def valueBy (rule : List Char → List Char × Nat) (body : List Char) : List Char :=
  (parts rule body).flatMap (·.1)

/-- The texts after the backslashes of the escapes that are met in a body. -/
def escapes : List Char → List (List Char)
  | [] => []
  | '\\' :: cs => cs :: escapes (cs.drop (escape cs).2)
  | _ :: cs => escapes cs
termination_by cs => cs.length

/-! ## The rules -/

/-- The code unit that four hexadecimal digits at the front spell. -/
def codeUnit? (cs : List Char) : Option Nat :=
  let digits := hexDigits 4 cs
  if digits.length = 4 then some (ofHexDigits digits) else none

/-- The character of a surrogate pair, from the digits of its first escape on. -/
def surrogatePair? (cs : List Char) : Option Char :=
  match codeUnit? cs, cs.drop 4 with
  | some high, '\\' :: 'u' :: more =>
    match codeUnit? more with
    | some low =>
      if Json.isHighSurrogate high && Json.isLowSurrogate low then
        charOfCode? (0x10000 + (high - 0xd800) * 0x400 + (low - 0xdc00))
      else none
    | none => none
  | _, _ => none

/-- The character of a code point in braces, from its first digit on. -/
def bracedChar? (cs : List Char) : Option Char :=
  let digits := cs.takeWhile isHexDigit
  if digits ≠ [] ∧ (cs.drop digits.length).head? = some '}' then charOfCode? (ofHexDigits digits)
  else none

/-- The number of characters of a closing brace after `digits`. -/
def closingLength (digits cs : List Char) : Nat :=
  if (cs.drop digits.length).head? = some '}' then 1 else 0

/-- What an escape stands for by the rules, from the text after its backslash, and how many characters
of that text belong to it. -/
def documented : List Char → List Char × Nat
  | 'x' :: cs =>
    let digits := hexDigits 2 cs
    if digits.length = 2 then ([Char.ofNat (ofHexDigits digits)], 3)
    else ('x' :: digits, 1 + digits.length)
  | 'u' :: '{' :: cs =>
    match bracedChar? cs with
    | some c => ([c], 3 + (cs.takeWhile isHexDigit).length)
    | none =>
      let digits := hexDigits 6 cs
      ('u' :: digits, 2 + digits.length + closingLength digits cs)
  | 'u' :: cs =>
    match surrogatePair? cs, (codeUnit? cs).bind charOfCode? with
    | some c, _ => ([c], 11)
    | none, some c => ([c], 5)
    | none, none =>
      let digits := hexDigits 4 cs
      ('u' :: digits, 1 + digits.length)
  | cs => escape cs

/-- The escapes that are read in another way than the rules say. -/
inductive Deviates : List Char → Prop
  /-- One to three digits are decoded. -/
  | short {cs : List Char} (hbrace : cs.head? ≠ some '{') (hpos : hexDigits 4 cs ≠ [])
    (hlt : (hexDigits 4 cs).length < 4) : Deviates ('u' :: cs)
  /-- The halves of a surrogate pair are kept. -/
  | pair {cs : List Char} {c : Char} (h : surrogatePair? cs = some c) : Deviates ('u' :: cs)
  /-- A code point is decoded without its closing brace. -/
  | unclosed {cs : List Char} {c : Char} (hpos : cs.takeWhile isHexDigit ≠ [])
    (hle : (cs.takeWhile isHexDigit).length ≤ 6)
    (hcode : charOfCode? (ofHexDigits (cs.takeWhile isHexDigit)) = some c)
    (hopen : (cs.drop (cs.takeWhile isHexDigit).length).head? ≠ some '}') : Deviates ('u' :: '{' :: cs)
  /-- Only the first six digits are looked at. -/
  | long {cs : List Char} {c : Char} (hlt : 6 < (cs.takeWhile isHexDigit).length)
    (hcode : bracedChar? cs = some c ∨ charOfCode? (ofHexDigits (hexDigits 6 cs)) = some c) :
    Deviates ('u' :: '{' :: cs)

variable {cs : List Char}

/-! ## Digits -/

theorem hexDigits_eq (limit : Nat) (cs : List Char) :
    hexDigits limit cs = (cs.takeWhile isHexDigit).take limit := by
  rw [hexDigits, List.take_takeWhile]

theorem length_hexDigits_le (limit : Nat) (cs : List Char) : (hexDigits limit cs).length ≤ limit := by
  rw [hexDigits_eq]
  exact List.length_take_le _ _

theorem all_hexDigits (limit : Nat) (cs : List Char) : (hexDigits limit cs).all isHexDigit :=
  List.all_takeWhile

/-- The hexadecimal digits. -/
def hexAlphabet : List Char :=
  "0123456789abcdefABCDEF".toList

theorem mem_hexAlphabet {c : Char} (h : isHexDigit c) : c ∈ hexAlphabet := by
  have hbelow (n : Nat) (hn : n < 0x80) :
      isHexDigit (Char.ofNat n) → Char.ofNat n ∈ hexAlphabet := by
    revert n
    decide +kernel
  have hc : c.toNat < 0x80 := by
    simp only [isHexDigit, Char.isDigit, Bool.or_eq_true, Bool.and_eq_true, decide_eq_true_eq,
      Char.le_def, UInt32.le_iff_toNat_le, ge_iff_le] at h
    rcases h with (⟨-, h⟩ | ⟨-, h⟩) | ⟨-, h⟩ <;> exact Nat.lt_of_le_of_lt h (by decide)
  have hmem := hbelow c.toNat hc
  rw [Char.ofNat_toNat] at hmem
  exact hmem h

theorem hexValue_lt {c : Char} (h : isHexDigit c) : hexValue c < 16 := by
  have hall : hexAlphabet.all (hexValue · < 16) := by decide
  exact of_decide_eq_true (List.all_eq_true.1 hall c (mem_hexAlphabet h))

theorem ofHexDigits_concat (digits : List Char) (c : Char) :
    ofHexDigits (digits ++ [c]) = ofHexDigits digits * 16 + hexValue c := by
  simp [ofHexDigits]

theorem ofHexDigits_lt {digits : List Char} (h : digits.all isHexDigit) :
    ofHexDigits digits < 16 ^ digits.length := by
  induction digits using List.reverseRecOn with
  | nil => decide
  | append_singleton digits c ih =>
    rw [List.all_append, Bool.and_eq_true] at h
    have hdigits := ih h.1
    have hc := hexValue_lt (by simpa using h.2 : isHexDigit c)
    rw [ofHexDigits_concat, List.length_append, List.length_singleton, Nat.pow_succ]
    omega

theorem charOfCode?_of_lt {n : Nat} (h : n < 0xd800) : ∃ c, charOfCode? n = some c :=
  ⟨_, dif_pos (.inl h)⟩

/-! ## The escapes that are read by the rules -/

theorem codePoint_of_some {digits : List Char} {c : Char} (hne : digits ≠ [])
    (h : charOfCode? (ofHexDigits digits) = some c) : codePoint digits = [c] := by
  obtain ⟨d, ds, rfl⟩ := List.exists_cons_of_ne_nil hne
  simp only [codePoint, h]

theorem codePoint_of_none {digits : List Char} (h : charOfCode? (ofHexDigits digits) = none) :
    codePoint digits = 'u' :: digits := by
  cases digits with
  | nil => rfl
  | cons d ds => simp only [codePoint, h]

theorem codePoint_eq_kept_iff {digits : List Char} :
    codePoint digits = 'u' :: digits ↔ digits = [] ∨ charOfCode? (ofHexDigits digits) = none := by
  by_cases hne : digits = []
  · subst hne
    exact iff_of_true rfl (.inl rfl)
  cases h : charOfCode? (ofHexDigits digits) with
  | none => exact iff_of_true (codePoint_of_none h) (.inr rfl)
  | some c =>
    rw [codePoint_of_some hne h]
    simp [hne, Ne.symm hne]

theorem documented_hex (cs : List Char) : documented ('x' :: cs) = escape ('x' :: cs) := by
  have hlength := length_hexDigits_le 2 cs
  rw [documented, escape]
  generalize hexDigits 2 cs = digits at hlength ⊢
  rcases digits with _ | ⟨a, _ | ⟨b, _ | ⟨c, digits⟩⟩⟩
  · rfl
  · rfl
  · simp [ofHexDigits]
  · simp at hlength

theorem escape_unit (h : cs.head? ≠ some '{') :
    escape ('u' :: cs) = (codePoint (hexDigits 4 cs), 1 + (hexDigits 4 cs).length) := by
  rw [escape]
  rintro more rfl
  exact h rfl

theorem documented_unit (h : cs.head? ≠ some '{') :
    documented ('u' :: cs) =
      match surrogatePair? cs, (codeUnit? cs).bind charOfCode? with
      | some c, _ => ([c], 11)
      | none, some c => ([c], 5)
      | none, none => ('u' :: hexDigits 4 cs, 1 + (hexDigits 4 cs).length) := by
  rw [documented]
  rintro more rfl
  exact h rfl

theorem deviates_unit_iff (h : cs.head? ≠ some '{') : Deviates ('u' :: cs) ↔
    (∃ c, surrogatePair? cs = some c) ∨ hexDigits 4 cs ≠ [] ∧ (hexDigits 4 cs).length < 4 := by
  constructor
  · rintro (⟨-, hpos, hlt⟩ | ⟨hpair⟩ | - | -)
    · exact .inr ⟨hpos, hlt⟩
    · exact .inl ⟨_, hpair⟩
    · exact absurd rfl h
    · exact absurd rfl h
  · rintro (⟨c, hpair⟩ | ⟨hpos, hlt⟩)
    · exact .pair hpair
    · exact .short h hpos hlt

/-- Four digits are read as the rules say, whether or not they name a character. -/
theorem documented_four_digits (h : cs.head? ≠ some '{') (hpair : surrogatePair? cs = none)
    (hfour : (hexDigits 4 cs).length = 4) : documented ('u' :: cs) = escape ('u' :: cs) := by
  have hne : hexDigits 4 cs ≠ [] := by
    intro hnil
    rw [hnil] at hfour
    cases hfour
  rw [documented_unit h, escape_unit h, hpair, codeUnit?, if_pos hfour, Option.bind_some]
  cases hcode : charOfCode? (ofHexDigits (hexDigits 4 cs)) with
  | some c => rw [codePoint_of_some hne hcode, hfour]
  | none => rw [codePoint_of_none hcode]

/-- Fewer than four digits always name a character, so they are kept only where there are none. -/
theorem documented_fewer_digits_iff (h : cs.head? ≠ some '{') (hpair : surrogatePair? cs = none)
    (hlt : (hexDigits 4 cs).length < 4) :
    documented ('u' :: cs) = escape ('u' :: cs) ↔ hexDigits 4 cs = [] := by
  obtain ⟨c, hc⟩ : ∃ c, charOfCode? (ofHexDigits (hexDigits 4 cs)) = some c := by
    have hvalue := ofHexDigits_lt (all_hexDigits 4 cs)
    have hpow := Nat.pow_le_pow_right (show 0 < 16 by decide) (Nat.le_of_lt_succ hlt)
    exact charOfCode?_of_lt (by omega)
  rw [documented_unit h, escape_unit h, hpair, codeUnit?, if_neg (Nat.ne_of_lt hlt),
    Option.bind_none, Prod.mk.injEq, and_iff_left rfl, eq_comm, codePoint_eq_kept_iff, hc]
  simp only [reduceCtorEq, or_false]

theorem documented_unit_iff (h : cs.head? ≠ some '{') :
    documented ('u' :: cs) = escape ('u' :: cs) ↔ ¬Deviates ('u' :: cs) := by
  have hlength := length_hexDigits_le 4 cs
  rw [deviates_unit_iff h]
  cases hpair : surrogatePair? cs with
  | some c =>
    -- The two readings differ already in how much of the text they take.
    refine iff_of_false (fun heq => ?_) (not_not_intro (.inl ⟨c, rfl⟩))
    rw [documented_unit h, escape_unit h, hpair] at heq
    have := congrArg Prod.snd heq
    dsimp only at this
    omega
  | none =>
    by_cases hfour : (hexDigits 4 cs).length = 4
    · exact iff_of_true (documented_four_digits h hpair hfour) (by simp [hfour])
    · have hlt : (hexDigits 4 cs).length < 4 := by omega
      rw [documented_fewer_digits_iff h hpair hlt]
      simp [hlt]

theorem documented_braced (cs : List Char) :
    documented ('u' :: '{' :: cs) =
      match bracedChar? cs with
      | some c => ([c], 3 + (cs.takeWhile isHexDigit).length)
      | none => ('u' :: hexDigits 6 cs, 2 + (hexDigits 6 cs).length + closingLength (hexDigits 6 cs) cs) := by
  rw [documented]

theorem escape_braced (cs : List Char) :
    escape ('u' :: '{' :: cs) =
      (codePoint (hexDigits 6 cs),
        2 + (hexDigits 6 cs).length + closingLength (hexDigits 6 cs) cs) := by
  rw [escape]
  rfl

theorem deviates_braced_iff : Deviates ('u' :: '{' :: cs) ↔
    (cs.takeWhile isHexDigit ≠ [] ∧ (cs.takeWhile isHexDigit).length ≤ 6 ∧
      (∃ c, charOfCode? (ofHexDigits (cs.takeWhile isHexDigit)) = some c) ∧
      (cs.drop (cs.takeWhile isHexDigit).length).head? ≠ some '}') ∨
    6 < (cs.takeWhile isHexDigit).length ∧
      ∃ c, bracedChar? cs = some c ∨ charOfCode? (ofHexDigits (hexDigits 6 cs)) = some c := by
  constructor
  · rintro (⟨hbrace, -, -⟩ | ⟨hpair⟩ | ⟨hpos, hle, hcode, hopen⟩ | ⟨hlt, hcode⟩)
    · exact absurd rfl hbrace
    · cases hpair
    · exact .inl ⟨hpos, hle, ⟨_, hcode⟩, hopen⟩
    · exact .inr ⟨hlt, _, hcode⟩
  · rintro (⟨hpos, hle, ⟨c, hcode⟩, hopen⟩ | ⟨hlt, c, hcode⟩)
    · exact .unclosed hpos hle hcode hopen
    · exact .long hlt hcode

/-- At most six digits in braces. -/
theorem documented_braced_iff_of_le (hle : (cs.takeWhile isHexDigit).length ≤ 6) :
    documented ('u' :: '{' :: cs) = escape ('u' :: '{' :: cs) ↔ ¬Deviates ('u' :: '{' :: cs) := by
  have hdigits : hexDigits 6 cs = cs.takeWhile isHexDigit := by
    rw [hexDigits_eq, List.take_of_length_le hle]
  rw [documented_braced, escape_braced, deviates_braced_iff, hdigits, bracedChar?, closingLength]
  generalize cs.takeWhile isHexDigit = digits at hle ⊢
  have hnot : ¬6 < digits.length := by omega
  by_cases hclosed : (cs.drop digits.length).head? = some '}'
  · refine iff_of_true ?_ (by simp [hclosed, hnot])
    by_cases hnil : digits = []
    · subst hnil
      rw [if_neg (by simp)]
      rfl
    · rw [if_pos ⟨hnil, hclosed⟩, if_pos hclosed]
      cases hcode : charOfCode? (ofHexDigits digits) with
      | some c =>
        rw [codePoint_of_some hnil hcode, Prod.mk.injEq]
        exact ⟨rfl, by omega⟩
      | none => rw [codePoint_of_none hcode]
  · rw [if_neg (hclosed ·.2)]
    dsimp only
    rw [Prod.mk.injEq, and_iff_left rfl, eq_comm, codePoint_eq_kept_iff]
    simp only [hclosed, hnot, hle, ne_eq, not_false_eq_true, true_and, and_true, false_and, or_false,
      not_and, not_exists, Option.eq_none_iff_forall_ne_some]
    exact or_iff_not_imp_left

/-- More digits in braces. -/
theorem documented_braced_iff_of_lt (hlt : 6 < (cs.takeWhile isHexDigit).length) :
    documented ('u' :: '{' :: cs) = escape ('u' :: '{' :: cs) ↔ ¬Deviates ('u' :: '{' :: cs) := by
  have hsix : (hexDigits 6 cs).length = 6 := by
    rw [hexDigits_eq, List.length_take]
    omega
  have hopen : closingLength (hexDigits 6 cs) cs = 0 := by
    have hcs := List.takeWhile_append_dropWhile (p := isHexDigit) (l := cs)
    have hall : (cs.takeWhile isHexDigit).all isHexDigit := List.all_takeWhile
    obtain ⟨d, more, hd⟩ := List.exists_cons_of_ne_nil (List.drop_eq_nil_iff.not.2 (not_le.2 hlt))
    have hdrop : cs.drop 6 = d :: (more ++ cs.dropWhile isHexDigit) := by
      rw [← hcs, List.drop_append_of_le_length (Nat.le_of_lt hlt), hd, hcs, List.cons_append]
    have hdigit : isHexDigit d := List.all_eq_true.1 hall d (List.mem_of_mem_drop (hd ▸ List.mem_cons_self))
    rw [closingLength, hsix, hdrop, if_neg]
    rintro ⟨⟩
    cases hdigit
  have hnot : ¬(cs.takeWhile isHexDigit).length ≤ 6 := by omega
  rw [documented_braced, escape_braced, deviates_braced_iff, hopen, hsix]
  cases hbraced : bracedChar? cs with
  | some c =>
    refine iff_of_false (fun heq => ?_) (by simp [hlt])
    have := congrArg Prod.snd heq
    dsimp only at this
    omega
  | none =>
    have hne : hexDigits 6 cs ≠ [] := by
      intro hnil
      rw [hnil] at hsix
      cases hsix
    dsimp only
    rw [Prod.mk.injEq, and_iff_left rfl, eq_comm, codePoint_eq_kept_iff]
    simp [hlt, hnot, hne, Option.eq_none_iff_forall_ne_some]

/-- An escape is read by the rules unless it is one of those that deviate. -/
theorem documented_eq_escape_iff (cs : List Char) : documented cs = escape cs ↔ ¬Deviates cs := by
  rcases cs with _ | ⟨c, cs⟩
  · exact iff_of_true rfl (by rintro ⟨⟩)
  by_cases hx : c = 'x'
  · subst hx
    exact iff_of_true (documented_hex cs) (by rintro ⟨⟩)
  by_cases hu : c = 'u'
  · subst hu
    by_cases hbrace : cs.head? = some '{'
    · obtain ⟨cs, rfl⟩ := List.head?_eq_some_iff.1 hbrace
      by_cases hle : (cs.takeWhile isHexDigit).length ≤ 6
      · exact documented_braced_iff_of_le hle
      · exact documented_braced_iff_of_lt (not_le.1 hle)
    · exact documented_unit_iff hbrace
  · have hother : ¬Deviates (c :: cs) := by
      rintro (_ | _ | _ | _) <;> exact hu rfl
    refine iff_of_true ?_ hother
    rw [documented]
    · rintro more ⟨⟩
      exact hx rfl
    · rintro more ⟨⟩
      exact hu rfl
    · rintro more ⟨⟩
      exact hu rfl

/-! ## Bodies -/

theorem unescape_eq (body : List Char) : unescape body = valueBy escape body := by
  fun_induction unescape body with
  | case1 => rw [valueBy, parts, List.flatMap_nil]
  | case2 cs value length hescape ih =>
    rw [valueBy, parts, hescape, List.flatMap_cons, ih, valueBy]
  | case3 c cs hc ih =>
    rw [valueBy, parts, List.flatMap_cons, ih, valueBy, List.singleton_append]
    exact hc

/-- Two ways to read escapes give the same parts exactly if they agree on the escapes that are met. -/
theorem parts_eq_iff (body : List Char) :
    parts escape body = parts documented body ↔ ∀ cs ∈ escapes body, ¬Deviates cs := by
  fun_induction escapes body with
  | case1 => simp [parts]
  | case2 cs ih =>
    rw [parts, parts, List.cons.injEq, eq_comm, documented_eq_escape_iff, List.forall_mem_cons, ← ih]
    refine and_congr_right fun hcs => ?_
    rw [(documented_eq_escape_iff cs).2 hcs]
  | case3 c cs hc ih =>
    rw [parts, parts, List.cons.injEq, and_iff_right rfl, ih]
    all_goals exact hc

/-! ## Texts spelled by their code units -/

/-- The UTF-16 code units of a character. -/
def codeUnits (c : Char) : List Nat :=
  if c.toNat < 0x10000 then [c.toNat]
  else [0xd800 + (c.toNat - 0x10000) / 0x400, 0xdc00 + (c.toNat - 0x10000) % 0x400]

/-- Four hexadecimal digits that spell the code unit. -/
structure IsUnit (n : Nat) (digits : List Char) : Prop where
  length : digits.length = 4
  all : digits.all isHexDigit
  value : ofHexDigits digits = n

/-- The body spells each of the code units as `\u` and four hexadecimal digits. -/
inductive Spells : List Nat → List Char → Prop
  | nil : Spells [] []
  | cons {n : Nat} {units : List Nat} {digits cs : List Char} (hn : IsUnit n digits)
    (h : Spells units cs) : Spells (n :: units) ('\\' :: 'u' :: (digits ++ cs))

variable {c : Char} {n : Nat} {units : List Nat} {digits body s : List Char}

theorem valueBy_of_rule (rule : List Char → List Char × Nat) {value : List Char} {length : Nat}
    (h : rule cs = (value, length)) :
    valueBy rule ('\\' :: cs) = value ++ valueBy rule (cs.drop length) := by
  rw [valueBy, parts, h, List.flatMap_cons, valueBy]

namespace IsUnit

theorem ne_nil (h : IsUnit n digits) : digits ≠ [] := by
  rintro rfl
  cases h.length

theorem hexDigits_append (h : IsUnit n digits) (cs : List Char) :
    hexDigits 4 (digits ++ cs) = digits := by
  have htake : (digits ++ cs).take 4 = digits := by
    rw [← h.length, List.take_left]
  rw [hexDigits, htake]
  exact List.takeWhile_eq_self_iff.2 (List.all_eq_true.1 h.all)

theorem codeUnit?_append (h : IsUnit n digits) (cs : List Char) :
    codeUnit? (digits ++ cs) = some n := by
  rw [codeUnit?, h.hexDigits_append, if_pos h.length, h.value]

theorem drop_append (h : IsUnit n digits) (cs : List Char) : (digits ++ cs).drop 4 = cs := by
  rw [← h.length, List.drop_left]

theorem head?_append (h : IsUnit n digits) (cs : List Char) : (digits ++ cs).head? ≠ some '{' := by
  obtain ⟨d, ds, rfl⟩ := List.exists_cons_of_ne_nil h.ne_nil
  have hall := h.all
  rintro ⟨⟩
  cases hall

theorem valueBy_escape (h : IsUnit n digits) (cs : List Char) :
    valueBy escape ('\\' :: 'u' :: (digits ++ cs)) = codePoint digits ++ valueBy escape cs := by
  have hescape := escape_unit (h.head?_append cs)
  rw [h.hexDigits_append, h.length] at hescape
  rw [valueBy_of_rule escape hescape, List.drop_succ_cons, h.drop_append]

theorem exists_of_lt (h : n < 0x10000) : ∃ digits, IsUnit n digits := by
  obtain ⟨ha, ha'⟩ := Json.hexDigit_spec (n := n / 0x1000) (by omega)
  obtain ⟨hb, hb'⟩ := Json.hexDigit_spec (n := n / 0x100 % 16) (by omega)
  obtain ⟨hc, hc'⟩ := Json.hexDigit_spec (n := n / 16 % 16) (by omega)
  obtain ⟨hd, hd'⟩ := Json.hexDigit_spec (n := n % 16) (by omega)
  refine ⟨[Json.hexDigit (n / 0x1000), Json.hexDigit (n / 0x100 % 16),
    Json.hexDigit (n / 16 % 16), Json.hexDigit (n % 16)], rfl, ?_, ?_⟩
  · simp [ha, hb, hc, hd]
  · simp only [ofHexDigits, List.foldl_cons, List.foldl_nil, ha', hb', hc', hd']
    omega

end IsUnit

theorem toNat_lt (c : Char) : c.toNat < 0x110000 := by
  rcases c.valid with h | h
  · exact Nat.lt_trans h (by decide)
  · exact h.2

/-- Code units are spelled in some way. -/
theorem exists_spells (s : List Char) : ∃ body, Spells (s.flatMap codeUnits) body := by
  have hall (units : List Nat) (h : ∀ n ∈ units, n < 0x10000) : ∃ body, Spells units body := by
    induction units with
    | nil => exact ⟨[], .nil⟩
    | cons n units ih =>
      obtain ⟨digits, hdigits⟩ := IsUnit.exists_of_lt (h n List.mem_cons_self)
      obtain ⟨cs, hcs⟩ := ih fun m hm => h m (List.mem_cons_of_mem _ hm)
      exact ⟨_, .cons hdigits hcs⟩
  refine hall _ fun n hn => ?_
  obtain ⟨c, -, hc⟩ := List.mem_flatMap.1 hn
  have hlt := toNat_lt c
  unfold codeUnits at hc
  split at hc
  · rw [List.mem_singleton] at hc
    omega
  · rw [List.mem_cons, List.mem_singleton] at hc
    omega

theorem Spells.of_cons (h : Spells (n :: units) body) : ∃ digits cs, IsUnit n digits ∧
    Spells units cs ∧ body = '\\' :: 'u' :: (digits ++ cs) := by
  cases h with
  | cons hn h => exact ⟨_, _, hn, h, rfl⟩

/-- The first character of a text that is spelled, and what spells the others: it needs one escape or
two. -/
theorem Spells.cases_cons (h : Spells ((c :: s).flatMap codeUnits) body) :
    (c.toNat ≤ 0xffff ∧ ∃ digits cs, IsUnit c.toNat digits ∧ Spells (s.flatMap codeUnits) cs ∧
      body = '\\' :: 'u' :: (digits ++ cs)) ∨
    (0xffff < c.toNat ∧ ∃ high low cs, IsUnit (0xd800 + (c.toNat - 0x10000) / 0x400) high ∧
      IsUnit (0xdc00 + (c.toNat - 0x10000) % 0x400) low ∧ Spells (s.flatMap codeUnits) cs ∧
      body = '\\' :: 'u' :: (high ++ '\\' :: 'u' :: (low ++ cs))) := by
  rw [List.flatMap_cons, codeUnits] at h
  split at h
  · rename_i hc
    obtain ⟨digits, cs, hn, hcs, rfl⟩ := h.of_cons
    exact .inl ⟨Nat.le_of_lt_succ hc, _, _, hn, hcs, rfl⟩
  · rename_i hc
    obtain ⟨high, more, hhigh, hmore, rfl⟩ := h.of_cons
    obtain ⟨low, cs, hlow, hcs, rfl⟩ := hmore.of_cons
    exact .inr ⟨by omega, _, _, _, hhigh, hlow, hcs, rfl⟩

theorem charOfCode?_toNat (c : Char) : charOfCode? c.toNat = some c := by
  have hvalid : c.toNat.isValidChar := c.valid
  rw [charOfCode?, dif_pos hvalid]
  rfl

theorem charOfCode?_of_surrogate (h : 0xd800 ≤ n) (h' : n < 0xe000) : charOfCode? n = none := by
  refine dif_neg ?_
  rintro (hn | ⟨hn, -⟩) <;> omega

/-- A literal that spells the code units of a text is read as this text exactly if no character needs
two of them. -/
theorem unescape_spelled_iff (h : Spells (s.flatMap codeUnits) body) :
    unescape body = s ↔ ∀ c ∈ s, c.toNat ≤ 0xffff := by
  rw [unescape_eq]
  induction s generalizing body with
  | nil =>
    cases h
    simp [valueBy, parts]
  | cons c s ih =>
    rcases h.cases_cons with ⟨hc, digits, cs, hdigits, hcs, rfl⟩ | ⟨hc, high, low, cs, hhigh, -, -, rfl⟩
    · have hcode : charOfCode? (ofHexDigits digits) = some c := hdigits.value ▸ charOfCode?_toNat c
      rw [hdigits.valueBy_escape, codePoint_of_some hdigits.ne_nil hcode, List.singleton_append,
        List.cons.injEq, and_iff_right rfl, ih hcs, List.forall_mem_cons, and_iff_right hc]
    · have hlt := toNat_lt c
      have hcode : charOfCode? (ofHexDigits high) = none := by
        rw [hhigh.value]
        exact charOfCode?_of_surrogate (by omega) (by omega)
      rw [hhigh.valueBy_escape, codePoint_of_none hcode, List.cons_append, List.cons.injEq]
      refine iff_of_false ?_ fun hall => Nat.not_le.2 hc (hall c List.mem_cons_self)
      rintro ⟨rfl, -⟩
      exact absurd hc (by decide)

theorem surrogatePair?_of_not_high (hdigits : IsUnit n digits) (hn : ¬(0xd800 ≤ n ∧ n < 0xdc00))
    (cs : List Char) : surrogatePair? (digits ++ cs) = none := by
  have hhigh : Json.isHighSurrogate n = false := by
    simpa [Json.isHighSurrogate] using hn
  rw [surrogatePair?, hdigits.codeUnit?_append, hdigits.drop_append]
  split
  · rename_i heq
    cases heq
    split
    · rw [hhigh, Bool.false_and]
      rfl
    · rfl
  · rfl

theorem surrogatePair?_of_units {high low : List Char} (hc : 0xffff < c.toNat)
    (hhigh : IsUnit (0xd800 + (c.toNat - 0x10000) / 0x400) high)
    (hlow : IsUnit (0xdc00 + (c.toNat - 0x10000) % 0x400) low) (cs : List Char) :
    surrogatePair? (high ++ '\\' :: 'u' :: (low ++ cs)) = some c := by
  have hlt := toNat_lt c
  have hhalves : Json.isHighSurrogate (0xd800 + (c.toNat - 0x10000) / 0x400) &&
      Json.isLowSurrogate (0xdc00 + (c.toNat - 0x10000) % 0x400) := by
    simp only [Json.isHighSurrogate, Json.isLowSurrogate, Bool.and_eq_true, decide_eq_true_eq]
    omega
  have hcode : 0x10000 + (0xd800 + (c.toNat - 0x10000) / 0x400 - 0xd800) * 0x400 +
      (0xdc00 + (c.toNat - 0x10000) % 0x400 - 0xdc00) = c.toNat := by omega
  rw [surrogatePair?, hhigh.codeUnit?_append, hhigh.drop_append]
  simp only [hlow.codeUnit?_append, if_pos hhalves, hcode, charOfCode?_toNat]

/-- By the rules it is always read as the text. -/
theorem documented_spelled (h : Spells (s.flatMap codeUnits) body) : valueBy documented body = s := by
  induction s generalizing body with
  | nil =>
    cases h
    simp [valueBy, parts]
  | cons c s ih =>
    rcases h.cases_cons with
      ⟨hc, digits, cs, hdigits, hcs, rfl⟩ | ⟨hc, high, low, cs, hhigh, hlow, hcs, rfl⟩
    · have hn : ¬(0xd800 ≤ c.toNat ∧ c.toNat < 0xdc00) := by
        rcases c.valid with h | ⟨h, -⟩
        · exact fun hn => Nat.not_le.2 h hn.1
        · exact fun hn => Nat.lt_asymm h (Nat.lt_trans hn.2 (by decide))
      have hunit := documented_unit (hdigits.head?_append cs)
      rw [surrogatePair?_of_not_high hdigits hn, hdigits.codeUnit?_append, Option.bind_some,
        charOfCode?_toNat] at hunit
      rw [valueBy_of_rule documented hunit, List.drop_succ_cons, hdigits.drop_append, ih hcs,
        List.singleton_append]
    · have hpair := documented_unit (hhigh.head?_append ('\\' :: 'u' :: (low ++ cs)))
      rw [surrogatePair?_of_units hc hhigh hlow] at hpair
      have hdrop : (high ++ '\\' :: 'u' :: (low ++ cs)).drop 10 = cs := by
        rw [show 10 = 4 + (2 + 4) from rfl, ← List.drop_drop, hhigh.drop_append, ← List.drop_drop]
        exact hlow.drop_append cs
      rw [valueBy_of_rule documented hpair, List.drop_succ_cons, hdrop, ih hcs, List.singleton_append]

/-! ## Literals in sources -/

variable {quote : Char} {source : String} {ts : List Token} {t : Token}

/-- What spells code units ends no literal. -/
theorem stringBody_spelled (hq : quote = '"' ∨ quote = '\'') (h : Spells units body)
    (rest : List Char) : Literal.stringBody quote (body ++ quote :: rest) = (body, some rest) := by
  have hquote : quote ≠ '\\' := by rcases hq with rfl | rfl <;> decide
  have hplain : hexAlphabet.all fun c => c ≠ quote ∧ c ≠ '\\' ∧ c ≠ '\n' ∧ c ≠ '\r' := by
    rcases hq with rfl | rfl <;> decide
  induction h with
  | nil => exact Lexeme.stringBody_quote hquote rest
  | @cons n units digits cs hn _ ih =>
    have hdigits : ∀ c ∈ digits, c ≠ quote ∧ c ≠ '\\' ∧ c ≠ '\n' ∧ c ≠ '\r' := fun c hc =>
      of_decide_eq_true
        (List.all_eq_true.1 hplain c (mem_hexAlphabet (List.all_eq_true.1 hn.all c hc)))
    rw [List.cons_append, List.cons_append, List.append_assoc, Literal.stringBody,
      Lexeme.stringBody_append_plain hdigits, ih]
    · rfl
    · rintro more ⟨⟩

/-- The lexeme of a literal without a gap before it. -/
def literal (quote : Char) (body : List Char) : Lexeme :=
  ⟨[], quote :: (body ++ [quote]), .str (String.ofList (unescape body))⟩

/-- A literal by itself is one token. -/
theorem tokenize_literal (hq : quote = '"' ∨ quote = '\'')
    (h : Literal.stringBody quote (body ++ [quote]) = (body, some [])) :
    tokenize (String.ofList (quote :: (body ++ [quote]))) =
      .ok [⟨.str (String.ofList (unescape body)),
        ⟨0, Text.byteLength (quote :: (body ++ [quote]))⟩, false⟩] := by
  have hread : Lexeme.read .initial true quote (body ++ [quote]) =
      .ok ⟨.str (String.ofList (unescape body)), quote :: (body ++ [quote]), ⟨0, [], false⟩, []⟩ := by
    have hstring : Lexeme.read .initial true quote (body ++ [quote]) =
        Lexeme.readString .initial quote (body ++ [quote]) := by
      rcases hq with rfl | rfl <;> rfl
    rw [hstring, Lexeme.readString, h]
    rfl
  have hnext := Lexeme.next_of_read (g := []) (.inl rfl) (by rcases hq with rfl | rfl <;> decide)
    (by rcases hq with rfl | rfl <;> decide) hread
  have hreads : Lexeme.Reads [] .initial [literal quote body] ⟨0, [], false⟩ := by
    refine .cons ?_ .nil
    simpa [literal, Lexeme.source] using hnext
  have hhead : (Lexeme.sources [literal quote body]).head? ≠ some '#' := by
    rcases hq with rfl | rfl <;> simp [literal, Lexeme.source]
  have hsource := (Lexing.ofSource_sources_iff hreads hhead).2 ⟨rfl, rfl⟩
  have hall : Lexing.ofSource (String.ofList (quote :: (body ++ [quote]))).toList =
      .ok ⟨[literal quote body], [], ⟨0, [], false⟩⟩ := by
    simpa [literal, Lexeme.source] using hsource
  rw [Lexing.tokenize_eq hall]
  simp [place, literal]

end JobBundler.Token

namespace JobBundler

open Token

/-- A literal of a source stands for what its parts stand for, and these are read by the rules exactly if
no escape that is met in it deviates. A text can be spelled by its UTF-16 code units; such a literal
stands for the text by the rules, and it is read so exactly if no character is above U+FFFF. -/
theorem strings_documented_iff (source text : String) :
    (∀ ts, tokenize source = .ok ts → ∀ t ∈ ts, ∀ value, t.kind = .str value →
      ∃ quote body, (quote = '"' ∨ quote = '\'') ∧
        (t.span.slice source).toList = quote :: (body ++ [quote]) ∧
        value.toList = valueBy escape body ∧
        (parts escape body = parts documented body ↔ ∀ cs ∈ escapes body, ¬Deviates cs)) ∧
    (∃ body, Spells (text.toList.flatMap codeUnits) body) ∧
    ∀ body, Spells (text.toList.flatMap codeUnits) body → valueBy documented body = text.toList ∧
      ∀ quote, quote = '"' ∨ quote = '\'' → ∃ value,
        tokenize (String.ofList (quote :: (body ++ [quote]))) =
          .ok [⟨.str value, ⟨0, Text.byteLength (quote :: (body ++ [quote]))⟩, false⟩] ∧
        (value = text ↔ ∀ c ∈ text.toList, c.toNat ≤ 0xffff) := by
  refine ⟨fun ts h t ht value hkind => ?_, exists_spells text.toList, fun body hbody => ?_⟩
  · obtain ⟨y, hy, rfl⟩ := tokenize_eq_ok_iff.1 h
    have hwritten := (lossless_of_ofSource hy).written t ht
    rw [hkind] at hwritten
    obtain ⟨quote, body, hq, htext, hvalue⟩ := hwritten
    exact ⟨quote, body, hq, htext, hvalue.trans (unescape_eq body), parts_eq_iff body⟩
  · refine ⟨documented_spelled hbody, fun quote hq => ⟨String.ofList (unescape body), ?_, ?_⟩⟩
    · exact tokenize_literal hq (stringBody_spelled hq hbody [])
    · rw [← unescape_spelled_iff hbody, String.ext_iff, String.toList_ofList]

/-- The literal `'\x41\u{42}'`, and the letter `A` spelled by its code unit. -/
theorem closedEscapes_documented :
    (∃ quote body, (quote = '"' ∨ quote = '\'') ∧
      (Span.slice ⟨0, 12⟩ "'\\x41\\u\x7b42\x7d'").toList = quote :: (body ++ [quote]) ∧
      "AB".toList = valueBy escape body ∧
      (parts escape body = parts documented body ↔ ∀ cs ∈ escapes body, ¬Deviates cs)) ∧
    ∃ value, tokenize (String.ofList ('"' :: ("\\u0041".toList ++ ['"']))) =
        .ok [⟨.str value, ⟨0, 8⟩, false⟩] ∧
      (value = "A" ↔ ∀ c ∈ "A".toList, c.toNat ≤ 0xffff) := by
  have htokens : tokenize "'\\x41\\u\x7b42\x7d'" = .ok [⟨.str "AB", ⟨0, 12⟩, false⟩] := by
    decide +kernel
  have hspells : Spells ("A".toList.flatMap codeUnits) "\\u0041".toList :=
    have hdigits : IsUnit 0x41 "0041".toList := ⟨by decide, by decide, by decide⟩
    .cons hdigits .nil
  obtain ⟨hliterals, -, hspelled⟩ := strings_documented_iff "'\\x41\\u\x7b42\x7d'" "A"
  exact ⟨hliterals _ htokens _ List.mem_cons_self "AB" rfl, (hspelled _ hspells).2 '"' (.inl rfl)⟩

/-- Literals that are read in another way: an escape of two digits, one without its closing brace, one of
seven digits and a surrogate pair. -/
theorem malformedEscapes_decoded :
    tokenize "'\\u41'" = .ok [⟨.str "A", ⟨0, 6⟩, false⟩] ∧
    valueBy documented "\\u41".toList = "u41".toList ∧
    tokenize "'\\u\x7b41'" = .ok [⟨.str "A", ⟨0, 7⟩, false⟩] ∧
    valueBy documented "\\u\x7b41".toList = "u41".toList ∧
    tokenize "'\\u\x7b0000041\x7d'" = .ok [⟨.str "\u00041\x7d", ⟨0, 13⟩, false⟩] ∧
    valueBy documented "\\u\x7b0000041\x7d".toList = "A".toList ∧
    tokenize "'\\uD83D\\uDE00'" = .ok [⟨.str "uD83DuDE00", ⟨0, 14⟩, false⟩] ∧
    valueBy documented "\\uD83D\\uDE00".toList = "😀".toList := by
  decide +kernel

end JobBundler
