/-
StructuralEditor/Number/Double.lean

Double precision numbers, exactly.  A finite double is a sign and a magnitude
`m · 2^e`; beside the finite doubles there are two infinities and one value
that is not a number.  Everything here is computed on natural numbers and
integers, so that a statement about a double is a statement of arithmetic.

The one operation that loses information is rounding, `Magnitude.ofRatio?`:
it sends a quotient of natural numbers to the nearest magnitude, a half going
to the even neighbour, and answers `none` when the quotient is too large for
any finite double.  Reading a decimal, converting an integer and adding two
doubles are all defined through it.
-/
namespace StructuralEditor.Number

-- the powers of the core library, whatever else is imported
attribute [local instance (2000)] instPowNat

/-! ### Magnitudes -/

/-- `m · 2^e` is the standard form of a double's magnitude: 53 bits at most,
and exactly 53 of them unless the exponent is the least one. -/
def IsStandard (m : Nat) (e : Int) : Prop :=
  m < 2 ^ (53 : Nat) ∧ -1074 ≤ e ∧ e ≤ 971 ∧ (2 ^ (52 : Nat) ≤ m ∨ e = -1074)

instance (m : Nat) (e : Int) : Decidable (IsStandard m e) := by
  unfold IsStandard
  infer_instance

/-- The magnitude of a finite double, `significand · 2^exponent`. -/
structure Magnitude where
  significand : Nat
  exponent : Int
  standard : IsStandard significand exponent
  deriving DecidableEq

namespace Magnitude

instance : Zero Magnitude := ⟨⟨0, -1074, by decide⟩⟩

/-- The magnitude `m · 2^e`, if that is a standard form. -/
def ofStandard? (m : Nat) (e : Int) : Option Magnitude :=
  if h : IsStandard m e then some ⟨m, e, h⟩ else none

/-- Numerator of the exact value, over `denominator`. -/
def numerator (x : Magnitude) : Nat :=
  x.significand * 2 ^ x.exponent.toNat

/-- Denominator of the exact value, a power of two. -/
def denominator (x : Magnitude) : Nat :=
  2 ^ (-x.exponent).toNat

/-- The exact value counted in units of `2^-1074`, the least positive
double. -/
def units (x : Magnitude) : Nat :=
  x.significand * 2 ^ (x.exponent + 1074).toNat

end Magnitude

/-! ### Rounding -/

/-- The integer nearest to `num / den`; a half goes to the even neighbour. -/
def roundHalfEven (num den : Nat) : Nat :=
  let quotient := num / den
  let remainder := num % den
  if 2 * remainder < den then quotient
  else if den < 2 * remainder then quotient + 1
  else quotient + quotient % 2

/-- The exponent `k` with `2^k ≤ num / den < 2^(k+1)`, for positive `num` and
`den`.  The bit lengths of the two numbers leave two candidates. -/
def binaryExponent (num den : Nat) : Int :=
  let k : Int := (num.log2 : Int) - den.log2
  if den * 2 ^ k.toNat ≤ num * 2 ^ (-k).toNat then k else k - 1

/-- The magnitude nearest to `num / den`, a half going to the even neighbour;
`none` when it would exceed the greatest finite double. -/
def Magnitude.ofRatio? (num den : Nat) : Option Magnitude :=
  if num = 0 ∨ den = 0 then some 0
  else
    let e := max (-1074) (binaryExponent num den - 52)
    let m := roundHalfEven (num * 2 ^ (-e).toNat) (den * 2 ^ e.toNat)
    if m = 2 ^ (53 : Nat) then Magnitude.ofStandard? (2 ^ (52 : Nat)) (e + 1) else Magnitude.ofStandard? m e

/-- Number of decimal digits of `n`; zero has one. -/
def digitCount (n : Nat) : Nat :=
  (Nat.toDigits 10 n).length

/-- The magnitude nearest to `digits · 10^exponent`.  Outside the decades that
doubles reach, the answer is known from the position of the first digit
alone, so no large power of ten is computed. -/
def Magnitude.ofDecimal? (digits : Nat) (exponent : Int) : Option Magnitude :=
  if digits = 0 then some 0
  else
    let point := (digitCount digits : Int) + exponent
    if 310 ≤ point then none
    else if point ≤ -324 then some 0
    else Magnitude.ofRatio? (digits * 10 ^ exponent.toNat) (10 ^ (-exponent).toNat)

/-! ### Doubles -/

/-- A double precision number.  Zero has two signs. -/
inductive Double where
  | notANumber
  | infinite (negative : Bool)
  | finite (negative : Bool) (magnitude : Magnitude)
  deriving DecidableEq

namespace Double

instance : Zero Double := ⟨.finite false 0⟩

/-- The number of the given sign with this magnitude, where `none` stands for
a magnitude beyond the finite ones. -/
def ofMagnitude (negative : Bool) : Option Magnitude → Double
  | some m => .finite negative m
  | none => .infinite negative

/-- The double nearest to `± digits · 10^exponent`; infinite when that is too
large. -/
def ofDecimal (negative : Bool) (digits : Nat) (exponent : Int) : Double :=
  ofMagnitude negative (Magnitude.ofDecimal? digits exponent)

/-- The double nearest to an integer, or `none` when the integer is too large
for a finite one. -/
def ofInt? (i : Int) : Option Double :=
  (Magnitude.ofRatio? i.natAbs 1).map (.finite (i < 0))

/-- The double nearest to an integer; infinite when that is too large. -/
def ofInt (i : Int) : Double :=
  ofMagnitude (i < 0) (Magnitude.ofRatio? i.natAbs 1)

/-- Whether a number is one of the two zeros. -/
def isZero : Double → Bool
  | .finite _ m => m.significand == 0
  | _ => false

/-- The exact value of a signed magnitude in units of `2^-1074`. -/
def signedUnits (negative : Bool) (m : Magnitude) : Int :=
  if negative then -(m.units : Int) else m.units

/-- The sum, rounded once.  A zero sum is negative only if both terms are. -/
def add : Double → Double → Double
  | .notANumber, _ | _, .notANumber => .notANumber
  | .infinite a, .infinite b => if a = b then .infinite a else .notANumber
  | .infinite a, .finite _ _ => .infinite a
  | .finite _ _, .infinite b => .infinite b
  | .finite a m, .finite b n =>
    let sum := signedUnits a m + signedUnits b n
    let negative := if sum = 0 then a && b else sum < 0
    ofMagnitude negative (Magnitude.ofRatio? sum.natAbs (2 ^ (1074 : Nat)))

/-- The integer part of a finite number, and `none` for the others. -/
def truncate? : Double → Option Int
  | .finite negative m =>
    let whole : Int := (m.numerator / m.denominator : Nat)
    some (if negative then -whole else whole)
  | _ => none

/-- Equality of numbers: the two zeros are equal and `notANumber` is equal to
nothing. -/
def same : Double → Double → Bool
  | .notANumber, _ | _, .notANumber => false
  | .finite a m, .finite b n => m = n && (a = b || m.significand = 0)
  | x, y => x = y

end Double

end StructuralEditor.Number
