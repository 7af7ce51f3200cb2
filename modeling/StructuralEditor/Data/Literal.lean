/-
StructuralEditor/Data/Literal.lean

How messages show values.  `Data.literal` writes a value so that its type can
be seen: texts are quoted, a tuple of one has a comma, a node names its kind
and its fields.  A value with an integer of too many digits in it cannot be
written, and `Data.literal?` fails on it.  `Data.asText?` is the same but for a
text, which stands for itself.
-/
import StructuralEditor.Data.Value
import StructuralEditor.Number.Error
import StructuralEditor.Number.Layout
import StructuralEditor.Text.Quoted

namespace StructuralEditor

open Number Document

/-- A truth value as messages show it. -/
def booleanLiteral (b : Bool) : String :=
  if b then "True" else "False"

/-- Values in round brackets; one alone is followed by a comma. -/
def tupleLiteral : List String → String
  | [item] => "(" ++ item ++ ",)"
  | items => "(" ++ ", ".intercalate items ++ ")"

mutual

/-- A node as messages show it: its kind, and its fields by name. -/
def nodeLiteral : Node → String
  | .null => "NullLiteral()"
  | .boolean b => "BooleanLiteral(value=" ++ booleanLiteral b ++ ")"
  | .leaf kind text =>
    (Node.leaf kind text).kindName ++ "(" ++ kind.field ++ "=" ++ Text.literal text ++ ")"
  | .pair kind first second =>
    (Node.pair kind first second).kindName ++ "(" ++ kind.firstField ++ "=" ++
      nodeLiteral first ++ ", " ++ kind.secondField ++ "=" ++ nodeLiteral second ++ ")"
  | .group kind items =>
    let keyword := match kind with
      | .declaration keyword => keywordField ++ "=" ++ Text.literal keyword ++ ", "
      | _ => ""
    (Node.group kind []).kindName ++ "(" ++ keyword ++ kind.field ++ "=" ++
      tupleLiteral (nodeLiterals items) ++ ")"

/-- Nodes as messages show them. -/
def nodeLiterals : List Node → List String
  | [] => []
  | item :: rest => nodeLiteral item :: nodeLiterals rest

end

namespace Data

/-- A value known by its type only, as messages show it. -/
def foreignLiteral : Foreign → String
  | .bytes => "b''"
  | .set => "set()"
  | .object => "<object object>"
  | .complex => "1j"

mutual

/-- A value as messages would show it, if there were no limit of digits. -/
def literal : Data → String
  | .null => "None"
  | .boolean b => booleanLiteral b
  | .integer i => toString i
  | .decimal x => Layout.diagnostic.write x
  | .text s => Text.literal s
  | .list items => "[" ++ ", ".intercalate (literals items) ++ "]"
  | .tuple items => tupleLiteral (literals items)
  | .record entries => "\x7b" ++ ", ".intercalate (entryLiterals entries) ++ "\x7d"
  | .node n => nodeLiteral n
  | .foreign kind => foreignLiteral kind

/-- Values as messages would show them. -/
def literals : List Data → List String
  | [] => []
  | item :: rest => literal item :: literals rest

/-- Entries of a record as messages would show them. -/
def entryLiterals : List (Data × Data) → List String
  | [] => []
  | (key, value) :: rest => (literal key ++ ": " ++ literal value) :: entryLiterals rest

end

/-- Whether an integer has few enough digits to be written. -/
def isWritableInteger (i : Int) : Bool :=
  i.natAbs < leastOverlong

theorem isWritableInteger_leastOverlong : isWritableInteger leastOverlong = false :=
  decide_eq_false (Nat.lt_irrefl _)

mutual

/-- Whether a value can be written: no integer in it has too many digits. -/
def isWritable : Data → Bool
  | .integer i => isWritableInteger i
  | .list items | .tuple items => areWritable items
  | .record entries => areWritableEntries entries
  | _ => true

/-- Whether values can be written. -/
def areWritable : List Data → Bool
  | [] => true
  | item :: rest => isWritable item && areWritable rest

/-- Whether the entries of a record can be written. -/
def areWritableEntries : List (Data × Data) → Bool
  | [] => true
  | (key, value) :: rest => isWritable key && isWritable value && areWritableEntries rest

end

/-- A value as messages show it, if it can be written. -/
def literal? (value : Data) : Option String :=
  if value.isWritable then some value.literal else none

/-- A value as text: a text is itself, and all else is its literal. -/
def asText? : Data → Option String
  | .text s => some s
  | other => other.literal?

theorem asText?_eq_none_iff {value : Data} : value.asText? = none ↔ value.isWritable = false := by
  cases value with
  | text s => simp [asText?, isWritable]
  | _ => simp [asText?, literal?]

end Data

end StructuralEditor
