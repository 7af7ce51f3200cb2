/-
StructuralEditor/Number/Notation.lean

The text of a number in a document.  It is made from the text that the number
has in messages, which shows its shortest digits but changes to an exponent
early: between a millionth and `10^21` those digits are read off and set out
around their point, and elsewhere the exponent loses the zeros in front of it.
-/
import StructuralEditor.Number.Layout
import StructuralEditor.Number.Numeral

namespace StructuralEditor.Number

/-- The sign and the decimal that a text is a numeral of. -/
def Decimal.ofText? (text : List Char) : Option (Bool × Decimal) :=
  match Numeral.leading? text with
  | some (.decimal negative whole fraction exponent, []) =>
    some (negative, ⟨natOfDigits (whole ++ fraction), exponent - fraction.length⟩)
  | _ => none

/-- Digits around their point, with zeros in every place up to it. -/
def Digits.expand (d : Digits) : List Char :=
  let whole :=
    d.digits.take d.point.toNat ++ List.replicate (d.point.toNat - d.digits.length) '0'
  let fraction := List.replicate (-d.point).toNat '0' ++ d.digits.drop d.point.toNat
  (if whole.isEmpty then ['0'] else whole) ++
    if fraction.isEmpty then [] else '.' :: fraction

namespace Notation

/-- A text with its exponent written out.  What is no decimal stays as it is. -/
def fixed (text : List Char) : List Char :=
  match Decimal.ofText? text with
  | some (negative, d) => (if negative then ['-'] else []) ++ d.toDigits.expand
  | none => text

/-- Digits without the zeros in front, except a last one. -/
def dropZeros : List Char → List Char
  | '0' :: d :: rest => dropZeros (d :: rest)
  | ds => ds

/-- A text with no zeros in front of its exponent. -/
def shortExponent : List Char → List Char
  | 'e' :: sign :: digits => 'e' :: sign :: dropZeros digits
  | c :: rest => c :: shortExponent rest
  | [] => []

end Notation

namespace Magnitude

/-- The double nearest to a millionth. -/
def millionth : Magnitude :=
  ⟨4722366482869645, -72, by decide⟩

/-- The double `10^21`. -/
def sextillion : Magnitude :=
  ⟨7629394531250000, 17, by decide⟩

end Magnitude

/-- The canonical text of a number. -/
def Double.canonicalText : Double → String
  | .notANumber => "NaN"
  | .infinite negative => if negative then "-Infinity" else "Infinity"
  | .finite negative m =>
    if m.significand = 0 then "0"
    else
      let text := (Layout.diagnostic.write (.finite negative m)).toList
      String.ofList <|
        if Magnitude.millionth.units ≤ m.units ∧ m.units < Magnitude.sextillion.units then
          Notation.fixed text
        else Notation.shortExponent text

/-- Both zeros have one text. -/
theorem Double.canonicalText_zero {negative : Bool} {m : Magnitude} (hm : m.significand = 0) :
    (Double.finite negative m).canonicalText = "0" :=
  if_pos hm

end StructuralEditor.Number
