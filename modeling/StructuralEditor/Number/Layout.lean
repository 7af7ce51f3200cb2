/-
StructuralEditor/Number/Layout.lean

The text of a double.  Which digits are written is settled by
`Magnitude.shortest`; how they are laid out is a matter of convention, and a
convention is a value of `Layout`.  There are two of them here:

* `Layout.diagnostic` writes numbers inside messages: a point in every
  positional number, exponents of at least two digits, both zeros;
* `Layout.canonical` is that of the numbers of a document: whole numbers without
  a point, positional up to twenty-one places, one zero.  Their text is made
  from the other one (`Double.canonicalText`), to the same effect.
-/
import StructuralEditor.Number.Shortest

namespace StructuralEditor.Number

/-- How the digits of a number are set out. -/
structure Layout where
  /-- Text of the value that is not a number. -/
  notANumber : String
  /-- Text of positive infinity. -/
  infinity : String
  /-- Whether negative zero keeps its sign. -/
  signedZero : Bool
  /-- Numbers whose point lies at or above this place are positional … -/
  firstPoint : Int
  /-- … if it also lies at or below this one. -/
  lastPoint : Int
  /-- What follows the digits of a whole number in positional form. -/
  wholeSuffix : String
  /-- Least number of digits of an exponent. -/
  exponentWidth : Nat

/-- Numbers of a document: `1`, `0.5`, `0.000001`, `1e-7`, `1e+21`. -/
def Layout.canonical : Layout :=
  ⟨"NaN", "Infinity", false, -5, 21, "", 1⟩

/-- Numbers in messages: `1.0`, `0.5`, `1e-05`, `1e+16`. -/
def Layout.diagnostic : Layout :=
  ⟨"nan", "inf", true, -3, 16, ".0", 2⟩

namespace Layout

/-- Digits around a point at place `d.point`. -/
def positional (style : Layout) (d : Digits) : List Char :=
  let count := d.digits.length
  if (count : Int) ≤ d.point then
    d.digits ++ List.replicate (d.point.toNat - count) '0' ++ style.wholeSuffix.toList
  else if 0 < d.point then
    d.digits.take d.point.toNat ++ '.' :: d.digits.drop d.point.toNat
  else '0' :: '.' :: List.replicate (-d.point).toNat '0' ++ d.digits

/-- The digits of `n`, at least `width` of them. -/
def padded (width n : Nat) : List Char :=
  let digits := Nat.toDigits 10 n
  List.replicate (width - digits.length) '0' ++ digits

/-- First digit, point and the others, sign and size of the exponent. -/
def scientific (style : Layout) (d : Digits) : List Char :=
  let exponent := d.point - 1
  let mantissa := match d.digits with
    | [] => []
    | [first] => [first]
    | first :: rest => first :: '.' :: rest
  let sign := if exponent < 0 then '-' else '+'
  mantissa ++ 'e' :: sign :: padded style.exponentWidth exponent.natAbs

/-- The text of a positive magnitude. -/
def magnitude (style : Layout) (m : Magnitude) : List Char :=
  let d := m.shortest.toDigits
  if style.firstPoint ≤ d.point ∧ d.point ≤ style.lastPoint then style.positional d
  else style.scientific d

/-- The text of a number without its sign. -/
def unsigned (style : Layout) (m : Magnitude) : List Char :=
  if m.significand = 0 then '0' :: style.wholeSuffix.toList else style.magnitude m

/-- The text of a number. -/
def write (style : Layout) : Double → String
  | .notANumber => style.notANumber
  | .infinite negative => (if negative then "-" else "") ++ style.infinity
  | .finite negative m =>
    let signed := negative && (style.signedZero || m.significand != 0)
    String.ofList ((if signed then ['-'] else []) ++ style.unsigned m)

end Layout

end StructuralEditor.Number
