/-
StructuralEditor/Editing/Items.lean

Edits of the selection and of the lists around it: moving the selection,
inserting a node, deleting an item.  Only the elements of an array and the
properties of an object take insertions; statements and declarators can be
walked through and deleted, but nothing is inserted between them.
-/
import StructuralEditor.Editing.Outcome

namespace StructuralEditor.Editing

open Document

/-- Fields whose lists take insertions and reorderings. -/
def editableFields : List String := ["elements", "properties"]

/-! ### The selection -/

/-- Moves the selection in a direction. -/
def moveSelection (direction : Direction) (tree : Node) (selected : Path) :
    Except EditError Outcome :=
  (navigate direction tree selected).map fun target =>
    .applied (.selectionMoved direction) ⟨none, some target⟩

/-- Selects a path, if it is a valid selection. -/
def select (target : Path) (tree : Node) : Outcome :=
  if tree.resolves target then .applied .selectionChanged ⟨none, some target⟩
  else .declined (.noTarget target)

/-! ### Insertion -/

/-- Where an insertion goes: the path of a list and a position in it.  A place
after the last item says so itself.  A selected array or object is entered at
its head.  Otherwise it is the place after the selected item of the innermost
editable list. -/
def insertionPlace? (tree : Node) (selected : Path) : Option (Path × Nat) :=
  if selected.isAfterLast then
    (tree.itemsAt? selected.dropLast).map fun items => (selected.dropLast, items.length)
  else
    match tree.nodeAt? selected with
    | some (.array _) => some (selected ++ [.field GroupKind.array.field], 0)
    | some (.object _) => some (selected ++ [.field GroupKind.object.field], 0)
    | _ =>
      match selected.splitAtLast (Step.isFieldIn editableFields) with
      | some (before, list, .index i :: _) => some (before ++ [list], i + 1)
      | some (before, list, _) => some (before ++ [list], 0)
      | none => none

/-- Inserts a node.  An object takes it as the value of a property without a
name, and the empty name is selected. -/
def insert (node : Node) (tree : Node) (selected : Path) : Except EditError Outcome :=
  match insertionPlace? tree selected with
  | none => .ok (.declined .noListAround)
  | some (list, position) =>
    match tree.nodeAt? list.dropLast with
    | some (.array _) => do
      let rebuilt ← tree.insertAt list position node
      .ok (.applied (.inserted position) ⟨some rebuilt, some (list ++ [.index position])⟩)
    | some (.object _) => do
      let rebuilt ← tree.insertAt list position (.unnamed node)
      .ok (.applied (.inserted position)
        ⟨some rebuilt, some (list ++ [.index position, .field PairKind.property.firstField])⟩)
    | _ => .ok (.declined .noListAround)

/-! ### Deletion -/

/-- The path of the deepest item that a selection stands in. -/
def deepestItem? (selected : Path) : Option Path :=
  (selected.splitAtLast Step.isIndex).map fun (before, item, _) => before ++ [item]

/-- Deletes the item that the selection stands in and selects the first item
left in its list.  Without an item, or at the end of the outermost list, the
whole document becomes null. -/
def delete (tree : Node) (selected : Path) : Outcome :=
  if selected.length = 2 && selected.isAfterLast then
    .applied .documentDeleted ⟨some .null, some []⟩
  else
    match deepestItem? selected with
    | none => .applied .documentDeleted ⟨some .null, some []⟩
    | some item =>
      if (tree.get? item).isNone then .declined (.nothingToDelete selected)
      else
        let rebuilt := tree.deleteAt item
        let target := if selected.isAfterLast then [] else moveDown rebuilt (moveUp item)
        .applied .itemDeleted ⟨some rebuilt, some target⟩

end StructuralEditor.Editing
