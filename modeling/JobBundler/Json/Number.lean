/-! # Numbers in JSON texts

A number is read into a double when its value is asked for, and refused when that overflows. The
reader keeps as many digits as fit into 64 bits, rounds them to a double, and multiplies it with a
power of ten, which is a rounded double as well. `overflows` says, in exact arithmetic, when this
exceeds the finite doubles. -/

namespace JobBundler.Json

/-- The greatest number of 64 bits. -/
def maxSignificand : Nat :=
  Nat.pow 2 64 - 1

/-- The nearest multiple of the power of two that leaves 53 bits, a tie going to the even one. -/
def roundToDouble (n : Nat) : Nat :=
  if n < Nat.pow 2 53 then n
  else
    let unit := Nat.pow 2 (n.log2 - 52)
    let quotient := n / unit
    let rest := n % unit
    if 2 * rest < unit ∨ (2 * rest = unit ∧ quotient % 2 = 0) then quotient * unit
    else (quotient + 1) * unit

/-- The least number that is rounded to infinity. -/
def overflowBound : Nat :=
  Nat.pow 2 1024 - Nat.pow 2 970

/-- Appends decimal digits to `n` while the result fits into 64 bits, and counts them. -/
def appendDigits (n : Nat) : List Char → Nat × Nat
  | [] => (n, 0)
  | d :: ds =>
    let m := n * 10 + (d.toNat - '0'.toNat)
    if m ≤ maxSignificand then
      let (result, count) := appendDigits m ds
      (result, count + 1)
    else (n, 0)

/-- A number as it is written, without its sign. -/
structure Number where
  integer : List Char
  fraction : List Char
  negativeExponent : Bool
  exponent : List Char
  deriving DecidableEq, Repr

namespace Number

/-- The digits that are kept, as a number, and the power of ten that it is multiplied with, the
written exponent apart. -/
def significand (x : Number) : Nat × Int :=
  let (n, count) := appendDigits 0 x.integer
  let (m, places) := appendDigits n x.fraction
  (m, (x.integer.length - count : Int) - places)

/-- The written exponent without its sign. -/
def exponentValue (x : Number) : Nat :=
  x.exponent.foldl (fun n d => n * 10 + (d.toNat - '0'.toNat)) 0

/-- Whether the number exceeds the finite doubles. An exponent past 31 bits counts as infinite. -/
def overflows (x : Number) : Bool :=
  let (m, shift) := x.significand
  let e := x.exponentValue
  if m = 0 then false
  else if e ≥ Nat.pow 2 31 then !x.negativeExponent
  else
    let power := shift + (if x.negativeExponent then -(e : Int) else e)
    match power with
    | .negSucc _ => false
    | .ofNat p => p > 308 || roundToDouble m * roundToDouble (Nat.pow 10 p) ≥ overflowBound

end Number
end JobBundler.Json
