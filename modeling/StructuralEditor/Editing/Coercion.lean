/-
StructuralEditor/Editing/Coercion.lean

Edits of the selected node itself: replacing it, writing its text or value,
and turning it into another kind.  A conversion keeps what it can: the text of
a leaf becomes a string, a text that denotes a number becomes that number, and
an array or object is built around the node.
-/
import StructuralEditor.Data.Number
import StructuralEditor.Editing.Outcome

namespace StructuralEditor.Editing

open Document Number

/-- Replaces what is selected by a node and extends the selection by `below`.
What is selected need not be a node itself. -/
def replace (node : Node) (below : Path) (tree : Node) (selected : Path) :
    Except EditError Outcome :=
  match tree.get? selected with
  | none => .ok (.declined (.nothingToReplace selected))
  | some (.node _) => do
    let rebuilt ← tree.set selected (.node node)
    .ok (.applied .replaced ⟨some rebuilt, some (selected ++ below)⟩)
  | some _ => .ok (.misplaced .replaced node selected (selected ++ below))

/-! ### Texts and values -/

/-- Revises the value of the selected node. -/
def updateValue (revise : Content → Except EditError Content) (tree : Node) (selected : Path) :
    Except EditError Outcome :=
  let place := selected ++ [.field "value"]
  match tree.get? place with
  | none => .ok (.declined (.noValue selected))
  | some old => do
    let new ← revise old
    let rebuilt ← tree.set place new
    .ok (.applied .valueUpdated ⟨some rebuilt, none⟩)

/-- Writes the text of the selected leaf. -/
def setText (text : String) (tree : Node) (selected : Path) : Except EditError Outcome :=
  match tree.nodeAt? selected with
  | none => .ok (.declined .nothingToEdit)
  | some (.leaf kind _) => do
    let rebuilt ← tree.set (selected ++ [.field kind.field]) (.text text)
    .ok (.applied .textEdited ⟨some rebuilt, none⟩)
  | some node => .ok (.declined (.notEditableAsText node.kindName))

/-- Writes the keyword of the selected declaration. -/
def changeKeyword (keyword : String) (tree : Node) (selected : Path) :
    Except EditError Outcome :=
  let place := selected ++ [.field keywordField]
  match tree.get? place with
  | none => .ok (.declined .notADeclaration)
  | some _ => do
    let rebuilt ← tree.set place (.text keyword)
    .ok (.applied (.keywordSet keyword) ⟨some rebuilt, none⟩)

/-- Adds to the selected number. -/
def addToNumber (increment : Data) (tree : Node) (selected : Path) : Except EditError Outcome :=
  match tree.nodeAt? selected with
  | some (.number text) =>
    updateValue
      (fun _ => (increment.addend.mapError .number).map fun term =>
        .text ((Double.ofLeading text).add term).canonicalText)
      tree selected
  | _ => .ok (.declined .notANumber)

/-! ### Conversions -/

/-- The text that a node keeps as a string. -/
def scalarText : Node → String
  | .boolean b => if b then "true" else "false"
  | .leaf _ text => text
  | _ => ""

/-- The number that a whole text denotes, in the stricter sense of a
conversion: no digit groups, no special values but `Infinity`, and literals
with a radix besides. -/
def strictNumber (text : String) : Double :=
  let cs := text.toList
  if cs.isEmpty then 0
  else
    match radixLiteral? cs with
    | some n => .ofInt n
    | none =>
      let unsigned := cs.dropWhile fun c => c = '+' || c = '-'
      let named := (namedValue? unsigned).isSome && unsigned != Numeral.infinityName
      if cs.contains '_' || named then .notANumber
      else (Double.ofWhole? text).getD .notANumber

/-- Whether a number is neither zero nor `notANumber`. -/
def isProper (x : Double) : Bool :=
  !x.isZero && x != .notANumber

/-- The number that a node keeps: its text read as a whole, else as far as it
goes, else zero. -/
def numberOf : Node → Double
  | .boolean b => .ofInt (if b then 1 else 0)
  | node =>
    let text := Text.trim (scalarText node)
    ([strictNumber text, .ofLeading text].find? isProper).getD 0

/-- Turns what is selected into a truth value. -/
def setBoolean (value : Bool) : Node → Path → Except EditError Outcome :=
  replace (.boolean value) []

/-- Turns what is selected into a string, which is empty unless it is a node. -/
def toText (tree : Node) (selected : Path) : Except EditError Outcome :=
  replace (.string (((tree.nodeAt? selected).map scalarText).getD "")) [] tree selected

/-- Turns what is selected into a number, which is zero unless it is a node. -/
def toNumber (tree : Node) (selected : Path) : Except EditError Outcome :=
  replace (.number (((tree.nodeAt? selected).map numberOf).getD 0).canonicalText) [] tree selected

/-- Wraps the selected node in an array. -/
def toArray (tree : Node) (selected : Path) : Except EditError Outcome :=
  match tree.nodeAt? selected with
  | none => .ok (.declined .nothingToConvert)
  | some node => replace (.array [node]) [] tree selected

/-- Wraps the selected node in an object, whose empty name is then selected. -/
def toObject (tree : Node) (selected : Path) : Except EditError Outcome :=
  match tree.nodeAt? selected with
  | none => .ok (.declined .nothingToConvert)
  | some node =>
    replace (.object [.unnamed node])
      [.field GroupKind.object.field, .index 0, .field PairKind.property.firstField] tree selected

/-- Turns what is selected into null. -/
def toNull : Node → Path → Except EditError Outcome :=
  replace .null []

end StructuralEditor.Editing
