/-
StructuralEditor/Keymap/Condition.lean

Key presses, and the conditions under which a rule applies to one: the
modifier keys that have to be held, and what has to be true of the selection.
Conditions are known by name.
-/
import StructuralEditor.Data.Value
import StructuralEditor.Document.Snapshot

namespace StructuralEditor.Keymap

open Document

/-! ### Key presses -/

/-- A modifier key. -/
inductive Modifier where
  | altKey
  | ctrlKey
  | metaKey
  | shiftKey
  deriving DecidableEq

/-- The name of a modifier. -/
def Modifier.name : Modifier → String
  | .altKey => "alt"
  | .ctrlKey => "ctrl"
  | .metaKey => "meta"
  | .shiftKey => "shift"

/-- The modifier of a given name. -/
def Modifier.ofName? (name : String) : Option Modifier :=
  [altKey, ctrlKey, metaKey, shiftKey].find? (·.name = name)

/-- Every modifier is found by its name. -/
theorem Modifier.ofName?_name (m : Modifier) : Modifier.ofName? m.name = some m := by
  cases m <;> decide

/-- A key press.  When a text has the focus, the caret position and the length
of the text come with it. -/
structure KeyPress where
  key : String
  held : List Modifier
  caret? : Option Int
  textLength? : Option Int
  deriving DecidableEq

/-- Whether a modifier is held. -/
def KeyPress.holds (press : KeyPress) (modifier : Modifier) : Bool :=
  press.held.contains modifier

/-! ### What is selected -/

/-- The selection that a key press meets: its path, and the node there if
there is one. -/
structure Focus where
  node? : Option Node
  selected : Path
  deriving DecidableEq

namespace Focus

/-- Whether the selection is edited as text. -/
def isText (focus : Focus) : Bool :=
  focus.node?.any Node.isText

/-- Name of the field of the innermost array or object that the selection
stands in.  The place after a last item stands where the owner of its list
stands. -/
def enclosingField? (focus : Focus) : Option String :=
  match focus.selected.withoutEnd.splitAtLast (Step.isFieldIn ["elements", "properties"]) with
  | some (_, .field name, _) => some name
  | _ => none

end Focus

/-! ### Conditions -/

/-- A condition on the selection. -/
inductive Condition where
  | always
  | isEditable
  | notEditable
  | isEnd
  | isNull
  | isBoolean
  | isNumber
  | isString
  | isArray
  | isObject
  | isProperty
  | isDeclaration
  | isCollectionItem
  | inArray
  | inObject
  deriving DecidableEq

namespace Condition

/-- All conditions. -/
def all : List Condition :=
  [always, isEditable, notEditable, isEnd, isNull, isBoolean, isNumber, isString, isArray,
   isObject, isProperty, isDeclaration, isCollectionItem, inArray, inObject]

/-- The name of a condition. -/
def name : Condition → String
  | .always => "always"
  | .isEditable => "is_editable"
  | .notEditable => "not_editable"
  | .isEnd => "is_end"
  | .isNull => "is_null"
  | .isBoolean => "is_boolean"
  | .isNumber => "is_number"
  | .isString => "is_string"
  | .isArray => "is_array"
  | .isObject => "is_object"
  | .isProperty => "is_property"
  | .isDeclaration => "is_declaration"
  | .isCollectionItem => "is_collection_item"
  | .inArray => "in_array"
  | .inObject => "in_object"

/-- The condition of a given name. -/
def ofName? (name : String) : Option Condition :=
  all.find? (·.name = name)

/-- Every condition is found by its name. -/
theorem ofName?_name (c : Condition) : ofName? c.name = some c := by
  cases c <;> decide

/-- Whether a condition holds. -/
def holds (focus : Focus) : Condition → Bool
  | .always => true
  | .isEditable => focus.isText
  | .notEditable => !focus.isText
  | .isEnd => focus.selected.isAfterLast
  | .isNull => focus.node? = some .null
  | .isBoolean => match focus.node? with
    | some (.boolean _) => true
    | _ => false
  | .isNumber => match focus.node? with
    | some (.number _) => true
    | _ => false
  | .isString => match focus.node? with
    | some (.string _) => true
    | _ => false
  | .isArray => match focus.node? with
    | some (.array _) => true
    | _ => false
  | .isObject => match focus.node? with
    | some (.object _) => true
    | _ => false
  | .isProperty => focus.node?.any Node.isProperty
  | .isDeclaration => match focus.node? with
    | some (.declaration _ _) => true
    | _ => false
  | .isCollectionItem => focus.enclosingField?.isSome
  | .inArray => focus.enclosingField? = some "elements"
  | .inObject => focus.enclosingField? = some "properties"

end Condition

/-- A rule's condition on the selection: one condition, or all of a list. -/
inductive Test where
  | one (condition : Condition)
  | every (conditions : List Condition)
  deriving DecidableEq

/-- Whether a test is passed. -/
def Test.passes (focus : Focus) : Test → Bool
  | .one condition => condition.holds focus
  | .every conditions => conditions.all (·.holds focus)

/-! ### Required modifiers -/

/-- The modifiers that a rule requires: given ones, or the control key if the
selection is edited as text, so that typing a letter is no command. -/
inductive Requirement where
  | modifiers (required : List Modifier)
  | ctrlIfEditable
  deriving DecidableEq

/-- The name of the requirement that depends on the selection. -/
def Requirement.ctrlIfEditableName : String := "ctrl_if_editable"

/-- The modifiers required at a selection. -/
def Requirement.required (focus : Focus) : Requirement → List Modifier
  | .modifiers required => required
  | .ctrlIfEditable => if focus.isText then [.ctrlKey] else []

end StructuralEditor.Keymap
