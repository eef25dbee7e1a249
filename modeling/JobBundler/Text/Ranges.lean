/-! # Tables of code points

A character class beyond ASCII is a table of closed ranges of code points, in ascending order. -/

namespace JobBundler.Text

/-- Whether the code point of `c` lies in one of the closed ranges, each a pair of its ends. -/
def inRanges (ranges : List (Nat × Nat)) (c : Char) : Bool :=
  ranges.any fun r => r.1 ≤ c.toNat && c.toNat ≤ r.2

theorem isAlpha_iff {c : Char} :
    c.isAlpha ↔ (0x41 ≤ c.toNat ∧ c.toNat ≤ 0x5a) ∨ 0x61 ≤ c.toNat ∧ c.toNat ≤ 0x7a := by
  have hletter : c.isAlpha = (decide ('A'.val ≤ c.val ∧ c.val ≤ 'Z'.val) ||
      decide ('a'.val ≤ c.val) && decide (c.val ≤ 'z'.val)) := rfl
  simp only [hletter, Bool.or_eq_true, Bool.and_eq_true, decide_eq_true_eq, UInt32.le_iff_toNat_le]
  rfl

end JobBundler.Text
