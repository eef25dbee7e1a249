import JobBundler.Proofs.Token.Placement

/-!
# Tokens at another place

What stands at another place of a source has other spans and is otherwise the same. Placed `n` bytes
further on, lexemes have the same tokens `n` bytes further on (`Token.place_add`).
-/

namespace JobBundler

/-- Where the starts and the ends of spans go to. -/
structure Relocation where
  start : Nat → Nat
  stop : Nat → Nat

namespace Relocation

/-- Forward by `n` bytes. -/
def forth (n : Nat) : Relocation :=
  ⟨(· + n), (· + n)⟩

/-- Back by `n` bytes. -/
def back (n : Nat) : Relocation :=
  ⟨(· - n), (· - n)⟩

end Relocation

def Span.relocate (ρ : Relocation) (s : Span) : Span :=
  ⟨ρ.start s.start, ρ.stop s.stop⟩

namespace Token

def relocate (ρ : Relocation) (t : Token) : Token :=
  { t with span := t.span.relocate ρ }

variable {n offset : Nat} {ls : List Lexeme}

theorem relocate_back_forth (t : Token) : (t.relocate (.forth n)).relocate (.back n) = t := by
  simp [relocate, Span.relocate, Relocation.forth, Relocation.back]

theorem place_add (n offset : Nat) (ls : List Lexeme) :
    place (offset + n) ls = (place offset ls).map (relocate (.forth n)) := by
  induction ls generalizing offset with
  | nil => rfl
  | cons l ls ih =>
    have hstart : offset + n + Text.byteLength l.gap = offset + Text.byteLength l.gap + n := by omega
    have hstop : offset + Text.byteLength l.gap + n + Text.byteLength l.text =
        offset + Text.byteLength l.gap + Text.byteLength l.text + n := by omega
    rw [place, hstart, hstop, ih]
    rfl

theorem place_sub (n offset : Nat) (ls : List Lexeme) :
    (place (offset + n) ls).map (relocate (.back n)) = place offset ls := by
  rw [place_add, List.map_map]
  exact (List.map_congr_left fun t _ => t.relocate_back_forth).trans (List.map_id _)

end Token
end JobBundler
