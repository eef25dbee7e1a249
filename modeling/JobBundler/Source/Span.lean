import JobBundler.Text.Bytes

/-! # Spans of source text -/

namespace JobBundler

/-- A range of byte offsets into source text: `start` is inside, `stop` is the first offset
outside. -/
structure Span where
  start : Nat
  stop : Nat
  deriving DecidableEq, Repr, Inhabited

namespace Span

/-- The number of bytes; none when the ends are out of order. -/
def length (s : Span) : Nat :=
  s.stop - s.start

/-- Whether the ends coincide. -/
def isEmpty (s : Span) : Bool :=
  s.start == s.stop

/-- Whether `inner` lies between the ends of `s`. -/
def encloses (s inner : Span) : Bool :=
  s.start ≤ inner.start && inner.stop ≤ s.stop

/-- The least span that reaches over both. -/
def merge (a b : Span) : Span :=
  ⟨min a.start b.start, max a.stop b.stop⟩

/-- The spanned text; nothing when the span is no slice of the source. -/
def slice (s : Span) (source : String) : String :=
  ((Text.slice? source.toList s.start s.stop).map String.ofList).getD ""

end Span
end JobBundler
