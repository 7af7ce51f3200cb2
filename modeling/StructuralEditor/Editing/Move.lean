/-
StructuralEditor/Editing/Move.lean

Moving an item within its list and across the borders of objects.  In order of
precedence:

* a property beside a property whose value is an object enters that object, at
  the tail when it comes from above and at the head when it comes from below;
* a property at the edge of an object that is itself the value of a property
  leaves it, and lands beside that property;
* any other item changes places with its neighbour.

The selection follows the item.
-/
import StructuralEditor.Editing.Items

namespace StructuralEditor.Editing

open Document

/-- An item of an editable list: the path of the list, the position, the
list, the item, and the part of the selection below the item. -/
structure LocatedItem where
  list : Path
  position : Nat
  items : List Node
  item : Node
  below : Path

/-- The path of a located item. -/
def LocatedItem.path (l : LocatedItem) : Path :=
  l.list ++ [.index l.position]

/-- The item of the innermost editable list that a selection stands in. -/
def locateItem? (tree : Node) (selected : Path) : Option LocatedItem :=
  match selected.splitAtLast (Step.isFieldIn editableFields) with
  | some (before, list, .index i :: below) =>
    (tree.itemsAt? (before ++ [list])).bind fun items =>
      items[i]?.map fun item => ⟨before ++ [list], i, items, item, below⟩
  | _ => none

/-- The position next to `position`; there is none above the first. -/
def nextPosition? : Vertical → Nat → Option Nat
  | .up, 0 => none
  | .up, i + 1 => some i
  | .down, i => some (i + 1)

/-- The neighbour of a located item and its position. -/
def LocatedItem.neighbour? (l : LocatedItem) (direction : Vertical) : Option (Nat × Node) :=
  (nextPosition? direction l.position).bind fun j => l.items[j]?.map fun node => (j, node)

/-! ### Into the neighbour -/

/-- The properties of the object that a property has as its value. -/
def nestedProperties? : Node → Option (List Node)
  | .property _ (.object properties) => some properties
  | _ => none

/-- The item goes into the object of its neighbour at position `j`. -/
def enter (direction : Vertical) (tree : Node) (l : LocatedItem) (j : Nat)
    (properties : List Node) : Except EditError Outcome := do
  let value := Step.field PairKind.property.secondField
  let inner := Step.field GroupKind.object.field
  let position : Nat := match direction with
    | .up => 0
    | .down => properties.length
  let grown ← tree.insertAt (l.list ++ [.index j, value, inner]) position l.item
  -- without the item, a neighbour that followed it has moved up by one
  let owner : Nat := match direction with
    | .up => j
    | .down => j - 1
  .ok (.applied .entered
    ⟨some (grown.deleteAt l.path),
      some (l.list ++ [.index owner, value, inner, .index position] ++ l.below)⟩)

/-! ### Out of the object -/

/-- For the list of an object that is the value of a property: the path of the
object which that property belongs to, and the position of the property. -/
def outerPlace? : Path → Option (Path × Nat)
  | [] => none
  | step :: rest =>
    match step, rest with
    | .field "properties", [.index k, .field "value", _] => some ([], k)
    | _, _ => (outerPlace? rest).map fun (owner, k) => (step :: owner, k)

/-- The item leaves its object for the one around it, if there is one. -/
def exit? (direction : Vertical) (tree : Node) (l : LocatedItem) :
    Except EditError (Option Outcome) :=
  match outerPlace? l.list with
  | none => .ok none
  | some (owner, k) =>
    let outer := owner ++ [.field GroupKind.object.field]
    match tree.nodeAt? owner, tree.nodeAt? (outer ++ [.index k]) with
    | some (.object _), some (.property _ _) => do
      let position : Nat := match direction with
        | .up => k
        | .down => k + 1
      let rebuilt ← (tree.deleteAt l.path).insertAt outer position l.item
      .ok (some (.applied .exited
        ⟨some rebuilt, some (outer ++ [.index position] ++ l.below)⟩))
    | _, _ => .ok none

/-! ### Past the neighbour -/

/-- The item changes places with its neighbour at position `j`. -/
def swap (direction : Vertical) (tree : Node) (l : LocatedItem) (j : Nat) (neighbour : Node) :
    Except EditError Outcome := do
  let rebuilt ← tree.set l.list (.items ((l.items.set l.position neighbour).set j l.item))
  .ok (.applied (.swapped direction)
    ⟨some rebuilt, some (l.list ++ [.index j] ++ l.below)⟩)

/-- Moves the item that the selection stands in. -/
def move (direction : Vertical) (tree : Node) (selected : Path) : Except EditError Outcome :=
  match locateItem? tree selected with
  | none => .ok (.declined .nothingToMove)
  | some l =>
    match l.neighbour? direction with
    | some (j, neighbour) =>
      match l.item.isProperty, nestedProperties? neighbour with
      | true, some properties => enter direction tree l j properties
      | _, _ => swap direction tree l j neighbour
    | none => do
      let left? ← if l.item.isProperty then exit? direction tree l else .ok none
      .ok (left?.getD (.declined (.atBoundary direction)))

end StructuralEditor.Editing
