/-
StructuralEditor/Data/Conversion.lean

From values to documents.  Null, truth values, numbers, texts, lists and
records whose keys are texts have a node each, and a node stands for itself;
numbers get their canonical text.  The first part that has no node, read from
left to right with a key before its value, is what the refusal names.  A key that
is no text has to be written for that, which may fail in turn.
-/
import StructuralEditor.Data.Literal
import StructuralEditor.Number.Notation

namespace StructuralEditor

open Document Number

/-- Why a value has no node. -/
inductive ConversionError where
  | keyNotText (key : Data)
  | unsupported (typeName : String)
  /-- A key that is no text and cannot be written for the refusal either. -/
  | unwritableKey

/-- The wording of a conversion error. -/
def ConversionError.message : ConversionError → String
  | .keyNotText key => "Object keys must be strings, got " ++ key.literal
  | .unsupported typeName => "Unsupported value of type " ++ typeName
  | .unwritableKey => "Object key has an integer with too many digits"

/-- Why a record with a key that is no text has no node. -/
def ConversionError.ofKey (key : Data) : ConversionError :=
  if key.isWritable then .keyNotText key else .unwritableKey

namespace Data

mutual

/-- The node of a value. -/
def toNode : Data → Except ConversionError Node
  | .null => .ok .null
  | .boolean b => .ok (.boolean b)
  | .integer i => .ok (.number (Double.ofInt i).canonicalText)
  | .decimal x => .ok (.number x.canonicalText)
  | .text s => .ok (.string s)
  | .list items | .tuple items => (toNodes items).map .array
  | .record entries => (toProperties entries).map .object
  | .node n => .ok n
  | .foreign kind => .error (.unsupported (typeName (.foreign kind)))

/-- The nodes of values. -/
def toNodes : List Data → Except ConversionError (List Node)
  | [] => .ok []
  | item :: rest => do
    let node ← toNode item
    let nodes ← toNodes rest
    .ok (node :: nodes)

/-- The properties of the entries of a record. -/
def toProperties : List (Data × Data) → Except ConversionError (List Node)
  | [] => .ok []
  | (.text name, value) :: rest => do
    let node ← toNode value
    let properties ← toProperties rest
    .ok (.property (.string name) node :: properties)
  | (key, _) :: _ => .error (.ofKey key)

end

/-- The document of a value: a program with its node as the only statement.
A program stands for itself. -/
def toDocument : Data → Except ConversionError Node
  | .node (.program body) => .ok (.program body)
  | value => value.toNode.map fun node => .program [node]

mutual

/-- How deep the containers of a value are nested, where a record counts one
and a list counts two. -/
def nesting : Data → Nat
  | .list items | .tuple items => nestingOfItems items + 2
  | .record entries => nestingOfEntries entries + 1
  | _ => 0

/-- The deepest nesting among values. -/
def nestingOfItems : List Data → Nat
  | [] => 0
  | item :: rest => max (nesting item) (nestingOfItems rest)

/-- The deepest nesting among the values of a record. -/
def nestingOfEntries : List (Data × Data) → Nat
  | [] => 0
  | (_, value) :: rest => max (nesting value) (nestingOfEntries rest)

end

end Data

end StructuralEditor
