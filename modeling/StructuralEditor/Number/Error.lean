/-
StructuralEditor/Number/Error.lean

Why a value does not serve as a number.  An integer may be of any size, but it is
neither read from a text nor written as one if it has too many digits.
-/
namespace StructuralEditor.Number

-- the powers of the core library, whatever else is imported
attribute [local instance (2000)] instPowNat

/-- Most decimal digits that an integer may have as text. -/
@[irreducible]
def maxDigits : Nat := 4300

/-- The least number with more digits than that. -/
def leastOverlong : Nat := 10 ^ maxDigits

/-- Why a value does not serve as a number. -/
inductive NumberError where
  /-- An integer beyond the finite doubles. -/
  | tooLarge
  /-- A value of a type that has no numbers. -/
  | notANumber (typeName : String)
  /-- A text that is no numeral as a whole. -/
  | notANumeral (text : String)
  /-- A value that is to be read as text and has an integer with too many digits in it. -/
  | unwritable
  deriving DecidableEq

/-- The wording of a number error. -/
def NumberError.message : NumberError → String
  | .tooLarge => "integer too large for a double"
  | .notANumber typeName => "not a number: " ++ typeName
  | .notANumeral text => "not a numeral: " ++ text
  | .unwritable => "integer with too many digits"

end StructuralEditor.Number
