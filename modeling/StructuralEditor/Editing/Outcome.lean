/-
StructuralEditor/Editing/Outcome.lean

What an edit comes to.  An edit either applies, with an effect, or declines,
with a reason: there is nothing at the selection, or nothing to do there.
Neither is a failure.  Effects and reasons carry what their reports say, a
sentence and sometimes a few details.

A replacement asks only whether anything stands at the selection.  Where this
is a list, a text or a flag it applies as well, with a result that is no
document any more.  Such an outcome is told apart (`Outcome.misplaced`); it
does not come of a selection that leads to a node.
-/
import StructuralEditor.Data.Value
import StructuralEditor.Document.Navigation
import StructuralEditor.Document.Snapshot

namespace StructuralEditor.Editing

open Document

/-- A direction in which an item moves within its list. -/
inductive Vertical where
  | up
  | down
  deriving DecidableEq

/-- The vertical direction with a given name. -/
def Vertical.ofName? (name : String) : Option Vertical :=
  if name = "UP" then some .up else if name = "DOWN" then some .down else none

/-- A vertical direction inside a sentence. -/
def Vertical.word : Vertical → String
  | .up => "up"
  | .down => "down"

/-- The opposite direction. -/
def Vertical.opposite : Vertical → Vertical
  | .up => .down
  | .down => .up

/-- What an edit has done. -/
inductive Effect where
  | selectionMoved (direction : Direction)
  | selectionChanged
  | inserted (position : Nat)
  | documentDeleted
  | itemDeleted
  /-- A property went into the object of its neighbour. -/
  | entered
  /-- A property left its object for the one around it. -/
  | exited
  | swapped (direction : Vertical)
  | replaced
  | valueUpdated
  | textEdited
  | keywordSet (keyword : String)
  | documentReset
  deriving DecidableEq

/-- Why an edit has done nothing. -/
inductive Reason where
  | noTarget (path : Path)
  | noListAround
  | nothingToDelete (path : Path)
  | unsupportedMove (direction : String)
  | nothingToMove
  | atBoundary (direction : Vertical)
  | nothingToReplace (path : Path)
  | noValue (path : Path)
  | nothingToEdit
  | notEditableAsText (kindName : String)
  | notADeclaration
  | notANumber
  | nothingToConvert
  deriving DecidableEq

/-- What an edit comes to. -/
inductive Outcome where
  | applied (effect : Effect) (change : Change)
  /-- Applied by putting a node at a place that is for something else. -/
  | misplaced (effect : Effect) (node : Node) (place target : Path)
  | declined (reason : Reason)
  deriving DecidableEq

/-! ### Reports -/

/-- The sentence that reports an effect. -/
def Effect.message : Effect → String
  | .selectionMoved direction => "Selection moved " ++ direction.word ++ "."
  | .selectionChanged => "Selection changed."
  | .inserted _ => "Inserted node."
  | .documentDeleted => "Deleted document."
  | .itemDeleted => "Deleted node."
  | .entered => "Moved property into nested object."
  | .exited => "Moved property out of nested object."
  | .swapped .up => "Moved up."
  | .swapped .down => "Moved down."
  | .replaced => "Replaced node."
  | .valueUpdated => "Updated value."
  | .textEdited => "Edited text."
  | .keywordSet keyword => "Declaration kind set to " ++ keyword ++ "."
  | .documentReset => "Document reset."

/-- The details of an effect, by name. -/
def Effect.details : Effect → List (String × Data)
  | .inserted position => [("index", .integer position)]
  | .documentDeleted => [("root", .boolean true)]
  | .itemDeleted => [("root", .boolean false)]
  | .entered => [("case", .text "enter")]
  | .exited => [("case", .text "exit")]
  | .swapped _ => [("case", .text "swap")]
  | _ => []

/-- The sentence that reports a reason. -/
def Reason.message : Reason → String
  | .noTarget _ => "Selection target does not exist."
  | .noListAround => "Cannot insert here (no enclosing collection)."
  | .nothingToDelete _ => "Nothing to delete."
  | .unsupportedMove direction => "Unsupported move direction '" ++ direction ++ "'."
  | .nothingToMove => "Nothing to move."
  | .atBoundary direction => "Cannot move " ++ direction.word ++ " (at boundary)."
  | .nothingToReplace _ => "Nothing selected to replace."
  | .noValue _ => "Selected node has no value."
  | .nothingToEdit => "Nothing selected to edit."
  | .notEditableAsText _ => "Selected node is not editable as text."
  | .notADeclaration => "Selected node is not a declaration."
  | .notANumber => "Selected node is not a number."
  | .nothingToConvert => "Nothing selected to convert."

/-- The details of a reason, by name. -/
def Reason.details : Reason → List (String × Data)
  | .noTarget path | .nothingToDelete path | .nothingToReplace path | .noValue path =>
    [("path", .text path.summary)]
  | .unsupportedMove _ => [("allowed", .list [.text "UP", .text "DOWN"])]
  | .notEditableAsText kindName => [("node", .text kindName)]
  | _ => []

namespace Outcome

/-- Whether the edit has been applied. -/
def isApplied : Outcome → Bool
  | .applied _ _ | .misplaced _ _ _ _ => true
  | .declined _ => false

/-- The change that an applied edit makes, if its result is a document. -/
def change? : Outcome → Option Change
  | .applied _ change => some change
  | .misplaced _ _ _ _ | .declined _ => none

/-- The sentence that reports an outcome. -/
def message : Outcome → String
  | .applied effect _ | .misplaced effect _ _ _ => effect.message
  | .declined reason => reason.message

/-- The details of an outcome, by name. -/
def details : Outcome → List (String × Data)
  | .applied effect _ | .misplaced effect _ _ _ => effect.details
  | .declined reason => reason.details

end Outcome

end StructuralEditor.Editing
