/-
StructuralEditor/Text/Quoted.lean

Quoted text, in two conventions.

`quoted` is the string literal of a document: double quotes around the text,
a backslash before a quote or a backslash, and an escape for every control
character below the space.  Everything else, of whatever script, stands for
itself.

`literal` is the form in which messages show a text: single quotes unless the
text holds single quotes and no double ones, and an escape for every
character without a printed form.
-/
import StructuralEditor.Text.Printable

namespace StructuralEditor.Text

/-- The lower case hexadecimal digits of `n`, at least `width` of them. -/
def hexadecimal (width n : Nat) : List Char :=
  let digits := Nat.toDigits 16 n
  List.replicate (width - digits.length) '0' ++ digits

/-! ### String literals of a document -/

/-- A character as it stands between double quotes. -/
def escapeQuoted (c : Char) : List Char :=
  if c = '"' then ['\\', '"']
  else if c = '\\' then ['\\', '\\']
  else if c = '\n' then ['\\', 'n']
  else if c = '\r' then ['\\', 'r']
  else if c = '\t' then ['\\', 't']
  else if c = '\x08' then ['\\', 'b']
  else if c = '\x0c' then ['\\', 'f']
  else if c.toNat < 0x20 then '\\' :: 'u' :: hexadecimal 4 c.toNat
  else [c]

/-- The string literal of a text. -/
def quoted (s : String) : String :=
  String.ofList ('"' :: (s.toList.flatMap escapeQuoted ++ ['"']))

/-! ### Texts inside messages -/

/-- A character as it stands between quotes of the given kind. -/
def escapeLiteral (quote c : Char) : List Char :=
  if c = quote ∨ c = '\\' then ['\\', c]
  else if c = '\n' then ['\\', 'n']
  else if c = '\r' then ['\\', 'r']
  else if c = '\t' then ['\\', 't']
  else if isPrintable c then [c]
  else if c.toNat < 0x100 then '\\' :: 'x' :: hexadecimal 2 c.toNat
  else if c.toNat < 0x10000 then '\\' :: 'u' :: hexadecimal 4 c.toNat
  else '\\' :: 'U' :: hexadecimal 8 c.toNat

/-- The quote that needs fewer escapes; single quotes if both kinds occur or
neither does. -/
def literalQuote (s : String) : Char :=
  if s.toList.contains '\'' && !s.toList.contains '"' then '"' else '\''

/-- A text as messages show it. -/
def literal (s : String) : String :=
  let quote := literalQuote s
  String.ofList (quote :: (s.toList.flatMap (escapeLiteral quote) ++ [quote]))

end StructuralEditor.Text
