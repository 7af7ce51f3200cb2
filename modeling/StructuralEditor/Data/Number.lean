/-
StructuralEditor/Data/Number.lean

Values as numbers, in three degrees of strictness.  `addend` takes numbers
only, a truth value counting as 0 or 1.  `numberText` also takes a text that
is a numeral as a whole.  `leadingNumber` takes anything: what is not a number
is read as text, as far as it goes, and truth values are not numbers.
-/
import StructuralEditor.Data.Literal
import StructuralEditor.Number.Canonical
import StructuralEditor.Number.Error

namespace StructuralEditor.Data

open Number

/-- The double nearest to an integer that is not too large for one. -/
def doubleOfInt (i : Int) : Except NumberError Double :=
  match Double.ofInt? i with
  | some x => .ok x
  | none => .error .tooLarge

/-- A value as a term of a sum. -/
def addend : Data → Except NumberError Double
  | .boolean b => .ok (Double.ofInt (if b then 1 else 0))
  | .integer i => doubleOfInt i
  | .decimal x => .ok x
  | other => .error (.notANumber other.typeName)

/-- The number that a value begins with.  What is neither a number nor a text is
written first. -/
def leadingNumber : Data → Except NumberError Double
  | .boolean _ => .ok .notANumber
  | .integer i => doubleOfInt i
  | .decimal x => .ok x
  | other =>
    match other.asText? with
    | some writing => .ok (.ofLeading writing)
    | none => .error .unwritable

/-- The canonical text of a value that is a number or a numeral; integers
beyond the doubles are infinite. -/
def numberText : Data → Except NumberError String
  | .boolean b => .ok (Double.ofInt (if b then 1 else 0)).canonicalText
  | .integer i => .ok (Double.ofInt i).canonicalText
  | .decimal x => .ok x.canonicalText
  | .text s =>
    match Double.ofWhole? s with
    | some x => .ok x.canonicalText
    | none => .error (.notANumeral s)
  | other => .error (.notANumber other.typeName)

/-- The canonical text of the number that a value begins with. -/
def normalizedText (d : Data) : Except NumberError String :=
  d.leadingNumber.map Double.canonicalText

/-- The integer that a value stands for: a number without its fraction, or a
text that is an integer as a whole. -/
def toInteger : Data → Except NumberError Int
  | .boolean b => .ok (if b then 1 else 0)
  | .integer i => .ok i
  | .decimal .notANumber => .error (.notANumeral Layout.diagnostic.notANumber)
  | .decimal (.infinite _) => .error .tooLarge
  | .decimal x => .ok (x.truncate?.getD 0)
  | .text s =>
    match intOfWhole? s with
    | some i => .ok i
    | none => .error (.notANumeral s)
  | other => .error (.notANumber other.typeName)

end StructuralEditor.Data
