/-
StructuralEditor/Number/Numeral.lean

Numerals in text.  A numeral is an optional sign followed by `Infinity` or by
decimal digits with an optional point and an optional exponent; the digits
may belong to any script.

Three readers share this grammar.  `Double.ofLeading` reads the longest
numeral a text starts with and ignores the rest, as suits text that is still
being typed.  `Double.ofWhole?` insists on the whole text, and in exchange
admits digit groups (`1_000`) and the words for the special values.
`intOfWhole?` does the same for integers.
-/
import StructuralEditor.Text.Blank
import StructuralEditor.Text.DecimalDigit
import StructuralEditor.Number.Double
import StructuralEditor.Number.Error

namespace StructuralEditor.Number

open Text

/-! ### The grammar -/

/-- A numeral: an infinity, or digits before the point, digits after it and
the power of ten that scales them. -/
inductive Numeral where
  | infinity (negative : Bool)
  | decimal (negative : Bool) (whole fraction : List Nat) (exponent : Int)
  deriving DecidableEq

/-- The number that a list of digits stands for, most significant first. -/
def natOfDigits (ds : List Nat) : Nat :=
  ds.foldl (fun n d => 10 * n + d) 0

/-- The double a numeral denotes, correctly rounded. -/
def Numeral.value : Numeral → Double
  | .infinity negative => .infinite negative
  | .decimal negative whole fraction exponent =>
    .ofDecimal negative (natOfDigits (whole ++ fraction)) (exponent - fraction.length)

namespace Numeral

/-- The leading digits of a text, as values, and what follows them. -/
def leadingDigits (cs : List Char) : List Nat × List Char :=
  ((cs.takeWhile isDecimalDigit).filterMap digitValue?, cs.dropWhile isDecimalDigit)

/-- An optional sign: whether it is a minus, and what follows. -/
def leadingSign : List Char → Bool × List Char
  | '-' :: rest => (true, rest)
  | '+' :: rest => (false, rest)
  | cs => (false, cs)

/-- Digits with an optional point, at least one digit in all. -/
def leadingMantissa? (cs : List Char) : Option (List Nat × List Nat × List Char) :=
  let (whole, afterWhole) := leadingDigits cs
  match afterWhole with
  | '.' :: rest =>
    let (fraction, afterFraction) := leadingDigits rest
    if whole.isEmpty && fraction.isEmpty then none else some (whole, fraction, afterFraction)
  | _ => if whole.isEmpty then none else some (whole, [], afterWhole)

/-- An optional exponent.  A mark without digits is no exponent and stays in
the rest. -/
def leadingExponent : List Char → Int × List Char
  | [] => (0, [])
  | mark :: rest =>
    if mark = 'e' ∨ mark = 'E' then
      let (negative, afterSign) := leadingSign rest
      match leadingDigits afterSign with
      | ([], _) => (0, mark :: rest)
      | (digits, afterDigits) =>
        let size : Int := natOfDigits digits
        (if negative then -size else size, afterDigits)
    else (0, mark :: rest)

/-- The name of infinity in a numeral. -/
def infinityName : List Char :=
  ['I', 'n', 'f', 'i', 'n', 'i', 't', 'y']

/-- The longest numeral a text starts with, and what follows it. -/
def leading? (cs : List Char) : Option (Numeral × List Char) :=
  let (negative, unsigned) := leadingSign cs
  if infinityName.isPrefixOf unsigned then
    some (.infinity negative, unsigned.drop infinityName.length)
  else
    (leadingMantissa? unsigned).map fun (whole, fraction, afterMantissa) =>
      let (exponent, rest) := leadingExponent afterMantissa
      (.decimal negative whole fraction exponent, rest)

end Numeral

/-! ### Leading numerals -/

/-- The value of the longest numeral that a text starts with, blanks aside;
not a number if there is none. -/
def Double.ofLeading (s : String) : Double :=
  match Numeral.leading? (s.toList.dropWhile isBlank) with
  | some (numeral, _) => numeral.value
  | none => .notANumber

/-! ### Whole texts -/

/-- Removes the underscores that stand between two digits; `none` if one
stands elsewhere.  The flag says whether a digit comes just before. -/
def joinGroups (afterDigit : Bool) : List Char → Option (List Char)
  | [] => some []
  | ['_'] => none
  | '_' :: c :: rest =>
    if afterDigit && isDecimalDigit c then joinGroups false (c :: rest) else none
  | c :: rest => (joinGroups (isDecimalDigit c) rest).map (c :: ·)

/-- The special values by name, in any letter case. -/
def namedValue? (cs : List Char) : Option Double :=
  let (negative, unsigned) := Numeral.leadingSign cs
  let name := String.ofList (unsigned.map Char.toLower)
  if name = "inf" ∨ name = "infinity" then some (.infinite negative)
  else if name = "nan" then some .notANumber
  else none

/-- The number that a whole text denotes, padding aside. -/
def Double.ofWhole? (s : String) : Option Double :=
  let text := strip isPadding s.toList
  (namedValue? text).or <| (joinGroups false text).bind fun plain =>
    match Numeral.leading? plain with
    | some (numeral, []) => some numeral.value
    | _ => none

/-- The integer that a whole text denotes, padding aside: an optional sign and
digits, possibly in groups. -/
def intOfWhole? (s : String) : Option Int :=
  (joinGroups false (strip isPadding s.toList)).bind fun plain =>
    let (negative, unsigned) := Numeral.leadingSign plain
    match Numeral.leadingDigits unsigned with
    | ([], _) => none
    | (digits, []) =>
      if maxDigits < digits.length then none
      else some (if negative then -(natOfDigits digits : Int) else natOfDigits digits)
    | _ => none

/-! ### Literals with a radix -/

/-- Radix announced by a letter after a leading zero. -/
def radixOf? (c : Char) : Option Nat :=
  if c = 'x' ∨ c = 'X' then some 16
  else if c = 'o' ∨ c = 'O' then some 8
  else if c = 'b' ∨ c = 'B' then some 2
  else none

/-- Value of a character as a digit below `radix`, letters counting from
ten. -/
def radixDigit? (radix : Nat) (c : Char) : Option Nat :=
  let value? : Option Nat :=
    if '0' ≤ c ∧ c ≤ '9' then some (c.toNat - '0'.toNat)
    else if 'a' ≤ c ∧ c ≤ 'f' then some (c.toNat - 'a'.toNat + 10)
    else if 'A' ≤ c ∧ c ≤ 'F' then some (c.toNat - 'A'.toNat + 10)
    else none
  value?.filter (· < radix)

/-- The number that a whole text denotes as a hexadecimal, octal or binary
literal (`0xff`, `0o17`, `0b101`). -/
def radixLiteral? : List Char → Option Nat
  | '0' :: letter :: first :: rest =>
    (radixOf? letter).bind fun radix =>
      ((first :: rest).mapM (radixDigit? radix)).map fun digits =>
        digits.foldl (fun n d => radix * n + d) 0
  | _ => none

end StructuralEditor.Number
