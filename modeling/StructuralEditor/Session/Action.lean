/-
StructuralEditor/Session/Action.lean

The actions that a keymap can name.  All but undo and redo are edits, some of
which take the parameter that comes with the action: a direction, a truth
value, an increment or a keyword.
-/
import StructuralEditor.Editing.Edit

namespace StructuralEditor

open Document Editing

/-- An action that a keymap can name. -/
inductive Action where
  | undo
  | redo
  | insert
  | move
  | delete
  | setBoolean
  | addToNumber
  | changeKeyword
  | toText
  | toNumber
  | toArray
  | toObject
  | toNull
  deriving DecidableEq

namespace Action

/-- All actions. -/
def all : List Action :=
  [undo, redo, insert, move, delete, setBoolean, addToNumber, changeKeyword, toText, toNumber,
   toArray, toObject, toNull]

/-- The name of an action. -/
def name : Action → String
  | .undo => "UNDO"
  | .redo => "REDO"
  | .insert => "INSERT"
  | .move => "MOVE"
  | .delete => "DELETE"
  | .setBoolean => "SET_BOOLEAN"
  | .addToNumber => "ADD_TO_NUMBER"
  | .changeKeyword => "CHANGE_DECLARATION_KIND"
  | .toText => "TO_STRING"
  | .toNumber => "TO_NUMBER"
  | .toArray => "TO_ARRAY"
  | .toObject => "TO_OBJECT"
  | .toNull => "TO_NULL"

/-- The action of a given name. -/
def ofName? (name : String) : Option Action :=
  all.find? (·.name = name)

/-- Every action is found by its name. -/
theorem ofName?_name (a : Action) : ofName? a.name = some a := by
  cases a <;> decide

/-- The edit that an action with a parameter comes down to.  Undo and redo are none,
and so are actions whose parameter is to be a text and cannot be written. -/
def edit? (param : Data) : Action → Option Edit
  | .undo | .redo => none
  | .insert => some (.insert .null)
  | .move => param.asText?.map .move
  | .delete => some .delete
  | .setBoolean => some (.setBoolean param.isTrue)
  | .addToNumber => some (.addToNumber param)
  | .changeKeyword => param.asText?.map .changeKeyword
  | .toText => some .toText
  | .toNumber => some .toNumber
  | .toArray => some .toArray
  | .toObject => some .toObject
  | .toNull => some .toNull

end Action

end StructuralEditor
