import JobBundler.Token.Literal
import Mathlib.Tactic.Common

/-!
# Decimal numbers

A decimal number that ends at a space or with the text is read to its end (`Literal.number_decimal`).
-/

namespace JobBundler

namespace Literal

/-- Digits with separators among them. -/
def IsDigits (cs : List Char) : Prop :=
  ∃ c rest, cs = c :: rest ∧ c.isDigit ∧ rest.all fun d => d.isDigit || d == '_'

/-- The digits of a decimal number, with a point after, among or before them. -/
inductive IsMantissa : List Char → Prop
  | whole {ds : List Char} (h : IsDigits ds) : IsMantissa ds
  | point {ds fraction : List Char} (h : IsDigits ds) (hf : fraction = [] ∨ IsDigits fraction) :
    IsMantissa (ds ++ '.' :: fraction)
  | fraction {ds : List Char} (h : IsDigits ds) : IsMantissa ('.' :: ds)

/-- A decimal number as it is written. -/
inductive IsDecimal : List Char → Prop
  | plain {ms : List Char} (h : IsMantissa ms) : IsDecimal ms
  | scaled {ms sign ds : List Char} {e : Char} (h : IsMantissa ms) (he : e = 'e' ∨ e = 'E')
    (hsign : sign = [] ∨ sign = ['+'] ∨ sign = ['-']) (hds : IsDigits ds) :
    IsDecimal (ms ++ e :: (sign ++ ds))

/-- The text has come to its end or to a space. -/
def EndsOperand (rest : List Char) : Prop :=
  rest.head?.all (· == ' ')

/-- A character of a decimal number other than the sign of its exponent. -/
def isPlain (c : Char) : Bool :=
  c.isDigit || ['_', '.', 'e', 'E'].contains c

theorem continuesNumber_of_isPlain {c : Char} (h : isPlain c) (radix : Bool) (previous : Char) :
    continuesNumber radix previous c := by
  simp only [isPlain, Bool.or_eq_true, List.contains_iff_mem, List.mem_cons, List.not_mem_nil, or_false] at h
  rcases h with h | rfl | rfl | rfl | rfl
  · simp [continuesNumber, Char.isAlphanum, h]
  all_goals rfl

theorem numberText_plain {cs : List Char} (h : cs.all isPlain) (radix : Bool) (previous : Char)
    (rest : List Char) :
    numberText radix previous (cs ++ rest) =
      (numberText radix (cs.getLast?.getD previous) rest).map (cs ++ ·) id := by
  induction cs generalizing previous with
  | nil => rfl
  | cons c cs ih =>
    rw [List.all_cons, Bool.and_eq_true] at h
    rw [List.cons_append, numberText, if_pos (continuesNumber_of_isPlain h.1 radix previous), ih h.2,
      Prod.map_map, List.getLast?_cons, Option.getD_some]
    rfl

theorem numberText_of_endsOperand {rest : List Char} (h : EndsOperand rest) (radix : Bool)
    (previous : Char) : numberText radix previous rest = ([], rest) := by
  cases rest with
  | nil => rfl
  | cons c rest =>
    obtain rfl : c = ' ' := by simpa [EndsOperand] using h
    have hnot : ¬continuesNumber radix previous ' ' := by simp [continuesNumber]
    rw [numberText, if_neg hnot]

theorem IsDigits.all_isPlain {ds : List Char} (h : IsDigits ds) : ds.all isPlain := by
  obtain ⟨c, rest, rfl, hc, hrest⟩ := h
  rw [List.all_cons, Bool.and_eq_true, isPlain, hc, List.all_eq_true]
  refine ⟨rfl, fun d hd => ?_⟩
  have hd := List.all_eq_true.1 hrest d hd
  rw [Bool.or_eq_true, beq_iff_eq] at hd
  rcases hd with hd | rfl
  · rw [isPlain, hd, Bool.true_or]
  · rfl

theorem IsMantissa.all_isPlain {ms : List Char} (h : IsMantissa ms) : ms.all isPlain := by
  have hpoint : isPlain '.' := rfl
  cases h with
  | whole h => exact h.all_isPlain
  | point h hf =>
    rw [List.all_append, List.all_cons, h.all_isPlain, hpoint]
    rcases hf with rfl | hf
    · rfl
    · exact hf.all_isPlain
  | fraction h =>
    rw [List.all_cons, hpoint]
    exact h.all_isPlain

/-- A decimal number starts with a digit, maybe after a point. -/
theorem IsDecimal.exists_cons {ds : List Char} (h : IsDecimal ds) :
    ∃ c rest, ds = c :: rest ∧ (c.isDigit ∨ c = '.' ∧ rest.head?.any Char.isDigit) := by
  have hmantissa {ms : List Char} (h : IsMantissa ms) :
      ∃ c rest, ms = c :: rest ∧ (c.isDigit ∨ c = '.' ∧ rest.head?.any Char.isDigit) := by
    cases h with
    | whole h =>
      obtain ⟨c, rest, rfl, hc, -⟩ := h
      exact ⟨c, rest, rfl, .inl hc⟩
    | point h _ =>
      obtain ⟨c, rest, rfl, hc, -⟩ := h
      exact ⟨c, _, rfl, .inl hc⟩
    | fraction h =>
      obtain ⟨c, rest, rfl, hc, -⟩ := h
      exact ⟨'.', _, rfl, .inr ⟨rfl, hc⟩⟩
  cases h with
  | plain h => exact hmantissa h
  | scaled h =>
    obtain ⟨c, rest, rfl, hc⟩ := hmantissa h
    refine ⟨c, _, rfl, hc.imp_right fun ⟨hc, hrest⟩ => ⟨hc, ?_⟩⟩
    cases rest with
    | nil => cases hrest
    | cons d rest => exact hrest

/-- The base of a number that is not decimal is a letter that no decimal number has. -/
theorem hasRadix_of_isPlain {ms : List Char} {e : Char} (hne : ms ≠ []) (h : ms.all isPlain)
    (he : isPlain e) (rest : List Char) : hasRadix (ms ++ e :: rest) = false := by
  unfold hasRadix
  split
  · rename_i c more hms
    have hc : isPlain c := by
      rcases ms with _ | ⟨a, _ | ⟨b, ms⟩⟩
      · exact absurd rfl hne
      · cases hms
        exact he
      · cases hms
        exact List.all_eq_true.1 h c (by simp)
    have hletters : ∀ d ∈ ['x', 'X', 'o', 'O', 'b', 'B'], isPlain d = false := by simp [isPlain]
    by_contra hradix
    rw [Bool.not_eq_false, List.contains_iff_mem] at hradix
    rw [hletters c hradix] at hc
    cases hc
  · rfl

/-- A decimal number is read to its end. -/
theorem number_decimal {ds rest : List Char} (h : IsDecimal ds) (hrest : EndsOperand rest) :
    number (ds ++ rest) = (ds, rest) := by
  cases h with
  | plain h =>
    rw [number, numberText_plain h.all_isPlain, numberText_of_endsOperand hrest]
    simp
  | @scaled ms sign ds e h he hsign hds =>
    have hplain : isPlain e := by rcases he with rfl | rfl <;> rfl
    have hne : ms ≠ [] := by
      obtain ⟨c, tl, hms, -⟩ := (IsDecimal.plain h).exists_cons
      exact hms ▸ List.cons_ne_nil c tl
    have hradix := hasRadix_of_isPlain hne h.all_isPlain hplain (sign ++ ds ++ rest)
    have hfront : (ms ++ [e]).all isPlain := by
      rw [List.all_append, h.all_isPlain, List.all_cons, hplain]
      rfl
    have htext : ms ++ e :: (sign ++ ds) ++ rest = ms ++ [e] ++ (sign ++ (ds ++ rest)) := by simp
    have hradix : hasRadix (ms ++ [e] ++ (sign ++ (ds ++ rest))) = false := by
      simpa using hradix
    have hsigned : numberText false e (sign ++ (ds ++ rest)) = (sign ++ ds, rest) := by
      have hdigits (previous : Char) : numberText false previous (ds ++ rest) = (ds, rest) := by
        rw [numberText_plain hds.all_isPlain, numberText_of_endsOperand hrest]
        simp
      rcases hsign with rfl | rfl | rfl
      · exact hdigits e
      all_goals
        rw [List.singleton_append, numberText, if_pos, hdigits]
        · rfl
        · rcases he with rfl | rfl <;> rfl
    rw [htext, number, hradix, numberText_plain hfront, List.getLast?_concat, Option.getD_some, hsigned]
    simp

end Literal
end JobBundler
