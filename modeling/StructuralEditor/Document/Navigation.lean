/-
StructuralEditor/Document/Navigation.lean

Moving a selection through a document.  Down enters a node: a group selects
its first item, or the place after the last one when it is empty, and a pair
selects its second node.  Up selects the node that owns the current place.
Left and right walk through the innermost list of the path; right of the last
item lies the place after it, and nothing lies beyond.

A move without a target leaves the selection where it is.  The only failure
is a sideways move from a place that is a field, not a position, of the
innermost list.
-/
import StructuralEditor.Document.Store

namespace StructuralEditor.Document

/-- A direction in which a selection moves. -/
inductive Direction where
  | up
  | down
  | left
  | right
  deriving DecidableEq

/-- The name of a direction. -/
def Direction.name : Direction → String
  | .up => "UP"
  | .down => "DOWN"
  | .left => "LEFT"
  | .right => "RIGHT"

/-- The direction with a given name. -/
def Direction.ofName (name : String) : Except EditError Direction :=
  match [Direction.up, .down, .left, .right].find? (·.name = name) with
  | some direction => .ok direction
  | none => .error (.unknownDirection name)

/-- Every direction is found by its name. -/
theorem Direction.ofName_name (d : Direction) : Direction.ofName d.name = .ok d := by
  cases d <;> rfl

/-- A direction inside a sentence. -/
def Direction.word : Direction → String
  | .up => "up"
  | .down => "down"
  | .left => "left"
  | .right => "right"

/-- Fields whose lists can be walked sideways. -/
def siblingFields : List String := ["elements", "properties", "body", "declarations"]

/-- The selection below a node: into a group or the second node of a pair. -/
def Node.entry : Node → Path
  | .group kind [] => [.field kind.field, .afterLast]
  | .group kind (_ :: _) => [.field kind.field, .index 0]
  | .pair kind _ _ => [.field kind.secondField]
  | _ => []

/-- The selection one level down. -/
def moveDown (tree : Node) (selected : Path) : Path :=
  if selected.isAfterLast then selected
  else match tree.nodeAt? selected with
    | some node => selected ++ node.entry
    | none => selected

/-- The selection one level up: the owner of the list, or of the field, in
which the selection stands. -/
def moveUp (selected : Path) : Path :=
  match selected.getLast? with
  | some (.field _) => selected.dropLast
  | some _ => selected.dropLast.dropLast
  | none => selected

/-- The position after `position` in a list of `size` items; the place after
the last item counts as one. -/
def stepRight (size position : Nat) : Step :=
  if position + 1 < size then .index (position + 1) else .afterLast

/-- The place left of `place` in a list of `size` items, if there is one. -/
def placeLeft? (size : Nat) : Step → Except EditError (Option Step)
  | .afterLast => .ok (if size = 0 then none else some (.index (size - 1)))
  | .index 0 => .ok none
  | .index (i + 1) => .ok (some (if i < size then .index i else .afterLast))
  | .field name => .error (.fieldAsPosition name)

/-- The place right of `place` in a list of `size` items, if there is one. -/
def placeRight? (size : Nat) : Step → Except EditError (Option Step)
  | .afterLast => .ok none
  | .index i => .ok (some (stepRight size i))
  | .field name => .error (.fieldAsPosition name)

/-- The selection one place further in the innermost list. -/
def moveSideways (neighbour? : Nat → Step → Except EditError (Option Step))
    (tree : Node) (selected : Path) : Except EditError Path :=
  match selected.splitAtLast (Step.isFieldIn siblingFields) with
  | some (before, list, place :: _) =>
    match tree.itemsAt? (before ++ [list]) with
    | some items =>
      (neighbour? items.length place).map fun next? =>
        match next? with
        | some next => before ++ [list, next]
        | none => selected
    | none => .ok selected
  | _ => .ok selected

/-- The selection reached by a move in a direction. -/
def navigate (direction : Direction) (tree : Node) (selected : Path) :
    Except EditError Path :=
  match direction with
  | .down => .ok (moveDown tree selected)
  | .up => .ok (moveUp selected)
  | .left => moveSideways placeLeft? tree selected
  | .right => moveSideways placeRight? tree selected

end StructuralEditor.Document
