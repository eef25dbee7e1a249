import JobBundler.Text.Blank
import JobBundler.Token.Fault

/-! # The text between tokens

A gap is white space, byte order marks and comments. `gap` cuts the longest one off the front of a
text; it fails only at a block comment without an end. -/

namespace JobBundler

/-- What stopped the reading of a text: the text passed before the fault, the faulty text itself,
and the cause. -/
structure Fault where
  lead : List Char
  text : List Char
  cause : LexicalCause
  deriving DecidableEq, Repr

/-- The same fault, met after `front`. -/
def Fault.after (front : List Char) (f : Fault) : Fault :=
  { f with lead := front ++ f.lead }

namespace Trivia

def isLineTerminator (c : Char) : Bool :=
  c == '\n' || c == '\r' || c == '\u2028' || c == '\u2029'

/-- White space or a byte order mark. -/
def isSpace (c : Char) : Bool :=
  Text.isBlank c || c == '\ufeff'

/-- Whether `c` ends a line comment. -/
def endsLineComment (c : Char) : Bool :=
  c == '\n' || c == '\r'

/-- The rest of a block comment with its end, and the text after it. -/
def blockComment? : List Char → Option (List Char × List Char)
  | [] => none
  | '*' :: '/' :: cs => some (['*', '/'], cs)
  | c :: cs => (blockComment? cs).map fun (body, rest) => (c :: body, rest)

theorem blockComment?_append {cs body rest : List Char}
    (h : blockComment? cs = some (body, rest)) : body ++ rest = cs := by
  fun_induction blockComment? cs generalizing body rest with
  | case1 => simp at h
  | case2 cs =>
    cases h
    rfl
  | case3 c cs _ ih =>
    obtain ⟨⟨b, r⟩, hb, heq⟩ := Option.map_eq_some_iff.1 h
    cases heq
    simp [ih hb]

/-- Puts `front` before the gap, or before what led to the fault. -/
def extendGap (front : List Char) :
    Except Fault (List Char × List Char) → Except Fault (List Char × List Char)
  | .ok (gap, rest) => .ok (front ++ gap, rest)
  | .error f => .error (f.after front)

theorem extendGap_eq_ok_iff {front gap rest : List Char}
    {r : Except Fault (List Char × List Char)} :
    extendGap front r = .ok (gap, rest) ↔ ∃ g, r = .ok (g, rest) ∧ front ++ g = gap := by
  match r with
  | .ok (g, r) =>
    simp only [extendGap, Except.ok.injEq, Prod.mk.injEq]
    exact ⟨fun ⟨h, hr⟩ => ⟨g, ⟨rfl, hr⟩, h⟩, fun ⟨_, ⟨hg, hr⟩, h⟩ => ⟨hg ▸ h, hr⟩⟩
  | .error f => simp [extendGap]

/-- The longest gap at the front of the text, and the text after it. -/
def gap (cs : List Char) : Except Fault (List Char × List Char) :=
  match cs with
  | '/' :: '/' :: line =>
    extendGap ('/' :: '/' :: line.takeWhile (!endsLineComment ·))
      (gap (line.dropWhile (!endsLineComment ·)))
  | '/' :: '*' :: more =>
    match _h : blockComment? more with
    | none => .error ⟨[], '/' :: '*' :: more, .unterminatedComment⟩
    | some (body, rest) => extendGap ('/' :: '*' :: body) (gap rest)
  | c :: rest => if isSpace c then extendGap [c] (gap rest) else .ok ([], c :: rest)
  | [] => .ok ([], [])
termination_by cs.length
decreasing_by
  · have := (List.dropWhile_sublist (l := line) (!endsLineComment ·)).length_le
    simp only [List.length_cons]; omega
  · have := congrArg List.length (blockComment?_append _h)
    simp only [List.length_append, List.length_cons] at this ⊢; omega
  · simp

theorem gap_nil : gap [] = .ok ([], []) := by
  rw [gap]

theorem gap_cons_of_isSpace {c : Char} (hc : isSpace c) (cs : List Char) :
    gap (c :: cs) = extendGap [c] (gap cs) := by
  rw [gap]
  · rw [if_pos hc]
  · rintro more rfl -
    exact absurd hc (by decide)
  · rintro more rfl -
    exact absurd hc (by decide)

theorem gap_of_blockComment {cs body rest : List Char} (h : blockComment? cs = some (body, rest)) :
    gap ('/' :: '*' :: cs) = extendGap ('/' :: '*' :: body) (gap rest) := by
  rw [gap]
  split
  · rename_i hn
    rw [h] at hn
    cases hn
  · rename_i hs
    rw [h] at hs
    cases hs
    rfl

/-- Nothing is lost: the gap and the text after it are the whole text. -/
theorem gap_append {cs front rest : List Char} (h : gap cs = .ok (front, rest)) :
    front ++ rest = cs := by
  fun_induction gap cs generalizing front rest with
  | case1 line ih =>
    obtain ⟨g, hg, rfl⟩ := extendGap_eq_ok_iff.1 h
    simp [ih hg, List.takeWhile_append_dropWhile]
  | case2 => simp at h
  | case3 more body rest' hb ih =>
    obtain ⟨g, hg, rfl⟩ := extendGap_eq_ok_iff.1 h
    simp [ih hg, blockComment?_append hb]
  | case4 c rest' _ _ _ ih =>
    obtain ⟨g, hg, rfl⟩ := extendGap_eq_ok_iff.1 h
    simp [ih hg]
  | case5 | case6 => simp_all

end Trivia
end JobBundler
