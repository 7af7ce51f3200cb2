/-
StructuralEditor/Clipboard.lean

What a paste inserts: the node of a JSON text.  Reading and converting work
within limits on the nesting of containers; `Limits.standard` is what an
editor uses, and `Limits.unlimited` sets none.
-/
import StructuralEditor.Data.Conversion
import StructuralEditor.Json.Reader

namespace StructuralEditor.Clipboard

open Document Json Number

/-- Limits on the nesting of a pasted text. -/
structure Limits where
  /-- Most containers open at once. -/
  reading : Option Nat
  /-- Greatest nesting of a value that is turned into a node. -/
  conversion : Option Nat

/-- The limits of an editor. -/
def Limits.standard : Limits := ⟨some 990, some 960⟩

/-- No limits. -/
def Limits.unlimited : Limits := ⟨none, none⟩

/-- Why a paste inserts nothing. -/
inductive Refusal where
  | notText (typeName : String)
  | malformed (source : String) (problem : Problem)
  | tooDeep
  | unconvertible (reason : ConversionError)

/-- The wording of a fault. -/
def faultText : Fault → String
  | .byteOrderMark => "Unexpected UTF-8 BOM (decode using utf-8-sig)"
  | .valueExpected => "Expecting value"
  | .nameExpected => "Expecting property name enclosed in double quotes"
  | .colonExpected => "Expecting ':' delimiter"
  | .commaExpected => "Expecting ',' delimiter"
  | .extraData => "Extra data"
  | .controlCharacter => "Invalid control character at"
  | .unknownEscape => "Invalid \\escape"
  | .malformedUnicodeEscape => "Invalid \\uXXXX escape"
  | .unterminatedText => "Unterminated string starting at"

/-- A position of a text by line, column and offset; lines and columns count
from one. -/
def positionText (source : String) (position : Nat) : String :=
  let before := source.toList.take position
  let line := before.count '\n' + 1
  let column := (before.reverse.takeWhile (· != '\n')).length + 1
  s!"line {line} column {column} (char {position})"

/-- The wording of a problem in a JSON text. -/
def problemText (source : String) : Problem → String
  | .syntaxFault fault position => faultText fault ++ ": " ++ positionText source position
  | .tooManyDigits count =>
    s!"Exceeds the limit ({maxDigits} digits) for integer string conversion: value has {count} digits; "
      ++ "use sys.set_int_max_str_digits() to increase the limit"
  | .listTooDeep =>
    "maximum recursion depth exceeded while decoding a JSON array from a unicode string"
  | .recordTooDeep =>
    "maximum recursion depth exceeded while decoding a JSON object from a unicode string"

/-- The wording of a refusal. -/
def Refusal.message : Refusal → String
  | .notText typeName =>
    "Clipboard content is not valid JSON: the JSON object must be str, bytes or bytearray, not "
      ++ typeName
  | .malformed source problem =>
    "Clipboard content is not valid JSON: " ++ problemText source problem
  | .tooDeep => "Clipboard content is nested too deeply"
  | .unconvertible reason => reason.message

/-- The node of a JSON text. -/
def nodeOfText (limits : Limits) (s : String) : Except Refusal Node :=
  match Json.value limits.reading s with
  | .error problem => .error (.malformed s problem)
  | .ok d =>
    if limits.conversion.all (d.nesting ≤ ·) then d.toNode.mapError .unconvertible
    else .error .tooDeep

/-- The node that a clipboard content stands for. -/
def nodeOf (limits : Limits) : Data → Except Refusal Node
  | .text s => nodeOfText limits s
  | other => .error (.notText other.typeName)

end StructuralEditor.Clipboard
