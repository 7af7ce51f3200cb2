/-
StructuralEditor/Number/Shortest.lean

The shortest decimal of a double: of the decimals that read back to a
magnitude, one with the fewest digits, and of those the nearest.

On the grid of the decimals with `n` digits a magnitude has two neighbours.
If any point of the grid reads back to it, then so does one of the two, so it
is enough to look at them for `n = 1, 2, …, 17`.  Whether a candidate reads
back is decided by reading it, so the answer reads back by construction; the
exact expansion stands ready for the case that no grid has a hit.
-/
import StructuralEditor.Number.Double

namespace StructuralEditor.Number

-- the powers of the core library, whatever else is imported
attribute [local instance (2000)] instPowNat

/-- The decimal `digits · 10^exponent`. -/
structure Decimal where
  digits : Nat
  exponent : Int
  deriving DecidableEq

/-- A decimal written as `0.d₁d₂… · 10^point`, without zeros at its end. -/
structure Digits where
  digits : List Char
  point : Int
  deriving DecidableEq

/-- The place of the point of `num / den`, for positive `num` and `den`: the
`p` with `10^(p-1) ≤ num / den < 10^p`. -/
def decimalPoint (num den : Nat) : Int :=
  if den ≤ num then digitCount (num / den) else 1 - digitCount ((den - 1) / num)

namespace Magnitude

/-- Whether a decimal is read as this magnitude. -/
def readsBack (x : Magnitude) (d : Decimal) : Bool :=
  ofDecimal? d.digits d.exponent == some x

/-- The two decimals with `n` digits around `x`, the nearer one first and an
even one before an odd one at the same distance.  The upper one may be the
power of ten that follows. -/
def neighbours (x : Magnitude) (n : Nat) : List Decimal :=
  let exponent := decimalPoint x.numerator x.denominator - n
  let num := x.numerator * 10 ^ (-exponent).toNat
  let den := x.denominator * 10 ^ exponent.toNat
  let lower : Decimal := ⟨num / den, exponent⟩
  let upper : Decimal := ⟨num / den + 1, exponent⟩
  if roundHalfEven num den = num / den then [lower, upper] else [upper, lower]

/-- All digits of `x`. -/
def exactDecimal (x : Magnitude) : Decimal :=
  ⟨x.numerator * 5 ^ (-x.exponent).toNat, min x.exponent 0⟩

/-- The shortest decimal that reads back to `x`. -/
def shortest (x : Magnitude) : Decimal :=
  ((List.range' 1 17).findSome? fun n => (x.neighbours n).find? x.readsBack).getD x.exactDecimal

end Magnitude

/-- The digits of a decimal, with the zeros at its end dropped. -/
def Decimal.toDigits (d : Decimal) : Digits :=
  let all := Nat.toDigits 10 d.digits
  ⟨(all.reverse.dropWhile (· == '0')).reverse, all.length + d.exponent⟩

end StructuralEditor.Number
