/-
StructuralEditor/Json/Token.lean

The tokens of a JSON text: marks, texts and values.  Beside the numbers,
texts and names of the standard there are three more values, `NaN`,
`Infinity` and `-Infinity`.

A character that starts no token, a text that breaks off and a number with
too many digits are tokens too: they end the list, and they are reported only
if the structure of the text gets as far as to need them.  Every token is
kept with the position of its first character.
-/
import StructuralEditor.Data.Value
import StructuralEditor.Number.Error

namespace StructuralEditor.Json

open Number

/-- What is wrong with a JSON text at some position. -/
inductive Fault where
  | byteOrderMark
  | valueExpected
  | nameExpected
  | colonExpected
  | commaExpected
  | extraData
  | controlCharacter
  | unknownEscape
  | malformedUnicodeEscape
  | unterminatedText
  deriving DecidableEq

/-- Why a text is no JSON text. -/
inductive Problem where
  | syntaxFault (fault : Fault) (position : Nat)
  | tooManyDigits (count : Nat)
  | listTooDeep
  | recordTooDeep
  deriving DecidableEq

/-- A token of a JSON text. -/
inductive Token where
  | openList
  | closeList
  | openRecord
  | closeRecord
  | comma
  | colon
  | text (value : String)
  | value (value : Data)
  /-- A token that has a beginning but is not sound. -/
  | broken (problem : Problem)
  /-- A character that begins no token. -/
  | unknown

/-- A token and the position of its first character. -/
structure PlacedToken where
  position : Nat
  token : Token

/-- White space between tokens. -/
def isGap (c : Char) : Bool :=
  c = ' ' || c = '\t' || c = '\n' || c = '\r'

/-! ### Texts -/

/-- The value of a hexadecimal digit in either case. -/
def hexDigit? (c : Char) : Option Nat :=
  if '0' ≤ c ∧ c ≤ '9' then some (c.toNat - '0'.toNat)
  else if 'a' ≤ c ∧ c ≤ 'f' then some (c.toNat - 'a'.toNat + 10)
  else if 'A' ≤ c ∧ c ≤ 'F' then some (c.toNat - 'A'.toNat + 10)
  else none

/-- The code unit that the first four characters spell. -/
def codeUnit? : List Char → Option Nat
  | a :: b :: c :: d :: _ => do
    let a ← hexDigit? a
    let b ← hexDigit? b
    let c ← hexDigit? c
    let d ← hexDigit? d
    some (((a * 16 + b) * 16 + c) * 16 + d)
  | _ => none

/-- Whether a code unit is the first half of a surrogate pair. -/
def isHighSurrogate (unit : Nat) : Bool :=
  0xd800 ≤ unit && unit < 0xdc00

/-- Whether a code unit is the second half of a surrogate pair. -/
def isLowSurrogate (unit : Nat) : Bool :=
  0xdc00 ≤ unit && unit < 0xe000

/-- The character of a code unit that stands alone; half a surrogate pair is
replaced. -/
def ofCodeUnit (unit : Nat) : Char :=
  if isHighSurrogate unit || isLowSurrogate unit then '\ufffd' else Char.ofNat unit

/-- The character of an escape `\uXXXX`, given what follows its `u` and the
position of the `u`, and the number of characters after the `u` that it takes.
At least one character has to follow the digits.  Two escapes that spell a
surrogate pair are one character. -/
def unicodeEscape (position : Nat) (cs : List Char) : Except Problem (Char × Nat) :=
  match codeUnit? cs, cs.drop 4 with
  | some unit, after@(_ :: _) =>
    match after with
    | '\\' :: 'u' :: more =>
      if isHighSurrogate unit && 4 < more.length then
        match codeUnit? more with
        | some second =>
          if isLowSurrogate second then
            .ok (Char.ofNat (0x10000 + (unit - 0xd800) * 0x400 + (second - 0xdc00)), 10)
          else .ok (ofCodeUnit unit, 4)
        | none => .error (.syntaxFault .malformedUnicodeEscape (position + 6))
      else .ok (ofCodeUnit unit, 4)
    | _ => .ok (ofCodeUnit unit, 4)
  | _, _ => .error (.syntaxFault .malformedUnicodeEscape position)

/-- The character that a letter after a backslash stands for. -/
def namedEscape? (c : Char) : Option Char :=
  if c = '"' ∨ c = '\\' ∨ c = '/' then some c
  else if c = 'n' then some '\n'
  else if c = 'r' then some '\r'
  else if c = 't' then some '\t'
  else if c = 'b' then some '\x08'
  else if c = 'f' then some '\x0c'
  else none

/-- The rest of a text after its opening quote at position `start`: its
characters and how many characters of the source they take, closing quote
included. -/
def textBody (start position : Nat) (cs : List Char) : Except Problem (List Char × Nat) :=
  match cs with
  | [] => .error (.syntaxFault .unterminatedText start)
  | c :: rest =>
    if c = '"' then .ok ([], 1)
    else if c = '\\' then
      match rest with
      | [] => .error (.syntaxFault .unterminatedText start)
      | letter :: more =>
        if letter = 'u' then do
          let (escaped, taken) ← unicodeEscape (position + 1) more
          let (tail, count) ← textBody start (position + 2 + taken) (more.drop taken)
          .ok (escaped :: tail, count + 2 + taken)
        else
          match namedEscape? letter with
          | some escaped => do
            let (tail, count) ← textBody start (position + 2) more
            .ok (escaped :: tail, count + 2)
          | none => .error (.syntaxFault .unknownEscape position)
    else if c.toNat < 0x20 then .error (.syntaxFault .controlCharacter position)
    else do
      let (tail, count) ← textBody start (position + 1) rest
      .ok (c :: tail, count + 1)
termination_by cs.length
decreasing_by all_goals simp_all; try omega

/-- The token of a text, given what follows its opening quote, and how many
characters it takes after the quote. -/
def textToken (position : Nat) (rest : List Char) : Token × Nat :=
  match textBody position (position + 1) rest with
  | .ok (characters, count) => (.text (String.ofList characters), count)
  | .error problem => (.broken problem, 0)

/-! ### Numbers -/

/-- The leading ASCII digits. -/
def digitRun (cs : List Char) : List Char :=
  cs.takeWhile Char.isDigit

/-- The number that ASCII digits spell. -/
def digitsValue (ds : List Char) : Nat :=
  ds.foldl (fun n d => 10 * n + (d.toNat - '0'.toNat)) 0

/-- The digits before the point: a single zero, or digits without a zero in
front. -/
def wholeDigits : List Char → List Char
  | '0' :: _ => ['0']
  | cs => digitRun cs

/-- The digits after a point; none if no point with a digit follows. -/
def fractionDigits : List Char → List Char
  | '.' :: rest => digitRun rest
  | _ => []

/-- The value and the length of an exponent; nothing if no mark with a digit
follows. -/
def exponentPart? : List Char → Option (Int × Nat)
  | [] => none
  | mark :: rest =>
    if mark = 'e' ∨ mark = 'E' then
      let (negative, signLength, unsigned) := match rest with
        | '-' :: more => (true, 1, more)
        | '+' :: more => (false, 1, more)
        | _ => (false, 0, rest)
      let digits := digitRun unsigned
      if digits.isEmpty then none
      else
        let size : Int := digitsValue digits
        some (if negative then -size else size, 1 + signLength + digits.length)
    else none

/-- The longest number at the start of a text, and its length.  With neither
fraction nor exponent it is an integer, of a limited number of digits. -/
def numberToken? (cs : List Char) : Option (Token × Nat) :=
  let (negative, unsigned) := match cs with
    | '-' :: rest => (true, rest)
    | _ => (false, cs)
  let signLength := if negative then 1 else 0
  let whole := wholeDigits unsigned
  if whole.isEmpty then none
  else
    let afterWhole := unsigned.drop whole.length
    let fraction := fractionDigits afterWhole
    let fractionLength := if fraction.isEmpty then 0 else fraction.length + 1
    let exponent? := exponentPart? (afterWhole.drop fractionLength)
    if fraction.isEmpty && exponent?.isNone then
      let size : Int := digitsValue whole
      let token := if maxDigits < whole.length then .broken (.tooManyDigits whole.length)
        else .value (.integer (if negative then -size else size))
      some (token, signLength + whole.length)
    else
      let (exponent, exponentLength) := exponent?.getD (0, 0)
      let number := Double.ofDecimal negative (digitsValue (whole ++ fraction))
        (exponent - fraction.length)
      some (.value (.decimal number),
        signLength + whole.length + fractionLength + exponentLength)

/-! ### Tokens -/

/-- The values with a name. -/
def namedValues : List (List Char × Data) :=
  [("null".toList, .null), ("true".toList, .boolean true), ("false".toList, .boolean false),
   ("NaN".toList, .decimal .notANumber), ("Infinity".toList, .decimal (.infinite false)),
   ("-Infinity".toList, .decimal (.infinite true))]

/-- The token of a mark. -/
def markToken? (c : Char) : Option Token :=
  if c = '[' then some .openList
  else if c = ']' then some .closeList
  else if c = '\x7b' then some .openRecord
  else if c = '\x7d' then some .closeRecord
  else if c = ',' then some .comma
  else if c = ':' then some .colon
  else none

/-- The token that a text starts with, and how many characters it takes after
its first. -/
def leadingToken (position : Nat) (first : Char) (rest : List Char) : Token × Nat :=
  match markToken? first with
  | some token => (token, 0)
  | none =>
    if first = '"' then textToken position rest
    else
      match namedValues.find? fun (name, _) => name.isPrefixOf (first :: rest) with
      | some (name, value) => (.value value, name.length - 1)
      | none =>
        match numberToken? (first :: rest) with
        | some (token, length) => (token, length - 1)
        | none => (.unknown, 0)

/-- Whether the tokens of a text end with this one. -/
def Token.isLast : Token → Bool
  | .broken _ | .unknown => true
  | _ => false

/-- The tokens of a text whose first character stands at `position`. -/
def tokens (position : Nat) (cs : List Char) : List PlacedToken :=
  match cs with
  | [] => []
  | c :: rest =>
    if isGap c then tokens (position + 1) rest
    else
      let found := leadingToken position c rest
      let placed : PlacedToken := ⟨position, found.1⟩
      if found.1.isLast then [placed]
      else placed :: tokens (position + 1 + found.2) (rest.drop found.2)
termination_by cs.length
decreasing_by all_goals simp; try omega

end StructuralEditor.Json
