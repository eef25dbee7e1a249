/-! # Byte offsets into text

Positions in source text are counted in the bytes of its UTF-8 form, while text is a list of
characters. `byteLength` measures a piece, and `splitAtByte?` cuts at an offset, which succeeds
exactly on a character boundary (`splitAtByte?_eq_some_iff`). -/

namespace JobBundler.Text

/-- The number of bytes of the UTF-8 form. -/
def byteLength : List Char → Nat
  | [] => 0
  | c :: cs => c.utf8Size + byteLength cs

@[simp] theorem byteLength_nil : byteLength [] = 0 := rfl

@[simp] theorem byteLength_cons (c : Char) (cs : List Char) :
    byteLength (c :: cs) = c.utf8Size + byteLength cs := rfl

@[simp] theorem byteLength_append (as bs : List Char) :
    byteLength (as ++ bs) = byteLength as + byteLength bs := by
  induction as with
  | nil => simp
  | cons c cs ih => simp [ih, Nat.add_assoc]

/-- The text before and from byte `n` on, unless `n` is past the end or inside a character. -/
def splitAtByte? : List Char → Nat → Option (List Char × List Char)
  | cs, 0 => some ([], cs)
  | [], _ + 1 => none
  | c :: cs, n + 1 =>
    if c.utf8Size ≤ n + 1 then
      (splitAtByte? cs (n + 1 - c.utf8Size)).map fun (before, after) => (c :: before, after)
    else none

theorem splitAtByte?_byteLength (as bs : List Char) :
    splitAtByte? (as ++ bs) (byteLength as) = some (as, bs) := by
  induction as with
  | nil => cases bs <;> rfl
  | cons c cs ih =>
    have hc := c.utf8Size_pos
    obtain ⟨n, hn⟩ : ∃ n, byteLength (c :: cs) = n + 1 :=
      ⟨c.utf8Size + byteLength cs - 1, by simp only [byteLength_cons]; omega⟩
    have hr : n + 1 - c.utf8Size = byteLength cs := by
      simp only [byteLength_cons] at hn; omega
    have hle : c.utf8Size ≤ n + 1 := by simp only [byteLength_cons] at hn; omega
    rw [hn, List.cons_append, splitAtByte?, if_pos hle, hr, ih]
    rfl

theorem of_splitAtByte?_eq_some {cs as bs : List Char} {n : Nat}
    (h : splitAtByte? cs n = some (as, bs)) : cs = as ++ bs ∧ byteLength as = n := by
  fun_induction splitAtByte? cs n generalizing as bs with
  | case1 => simp_all
  | case2 => simp at h
  | case3 c cs n hle ih =>
    obtain ⟨⟨as', bs'⟩, hs, heq⟩ := Option.map_eq_some_iff.1 h
    cases heq
    obtain ⟨rfl, hl⟩ := ih hs
    exact ⟨rfl, by simp only [byteLength_cons]; omega⟩
  | case4 => simp at h

theorem splitAtByte?_eq_some_iff {cs as bs : List Char} {n : Nat} :
    splitAtByte? cs n = some (as, bs) ↔ cs = as ++ bs ∧ byteLength as = n :=
  ⟨of_splitAtByte?_eq_some, fun ⟨h, hn⟩ => h ▸ hn ▸ splitAtByte?_byteLength as bs⟩

/-- The text from byte `start` to byte `stop`, unless they are out of order, out of bounds or
inside a character. -/
def slice? (cs : List Char) (start stop : Nat) : Option (List Char) := do
  guard (start ≤ stop)
  let (before, _) ← splitAtByte? cs stop
  let (_, inside) ← splitAtByte? before start
  return inside

end JobBundler.Text
