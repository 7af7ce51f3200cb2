/-
StructuralEditor/Editing/Edit.lean

The edits of a document as one type, and what each of them does to a
snapshot.  Directions are given by name.
-/
import StructuralEditor.Editing.Coercion
import StructuralEditor.Editing.Move

namespace StructuralEditor.Editing

open Document Number

/-- A way to revise the value at a place. -/
inductive Revision where
  /-- Adds to the end of a text. -/
  | append (suffix : String)
  /-- Brings a number text to its canonical form. -/
  | normalize
  /-- Writes a content, whatever was there. -/
  | write (content : Content)

/-- The revised content. -/
def Revision.apply : Revision → Content → Except EditError Content
  | .append suffix, .text s => .ok (.text (s ++ suffix))
  | .append _, _ => .error .notText
  | .normalize, .text s => .ok (.text (Number.normalize s))
  | .normalize, _ => .ok (.text Double.notANumber.canonicalText)
  | .write content, _ => .ok content

/-- The document with the content at a path revised; unchanged if the path
leads nowhere. -/
def reviseAt (revise : Content → Except EditError Content) (tree : Node) (p : Path) :
    Except EditError Node :=
  match tree.get? p with
  | none => .ok tree
  | some old => (revise old).bind (tree.set p)

/-- An edit. -/
inductive Edit where
  | navigate (direction : String)
  | select (target : Path)
  | insert (node : Node)
  | delete
  | move (direction : String)
  | replace (node : Node) (below : Path)
  | updateValue (revise : Content → Except EditError Content)
  | setText (text : String)
  | changeKeyword (keyword : String)
  | setBoolean (value : Bool)
  | addToNumber (increment : Data)
  | toText
  | toNumber
  | toArray
  | toObject
  | toNull
  | reset (tree : Node)

/-- What an edit comes to on a snapshot. -/
def Edit.run (edit : Edit) (s : Snapshot) : Except EditError Outcome :=
  match edit with
  | .navigate direction => do
    let direction ← Direction.ofName direction
    moveSelection direction s.tree s.selected
  | .select target => .ok (Editing.select target s.tree)
  | .insert node => Editing.insert node s.tree s.selected
  | .delete => .ok (Editing.delete s.tree s.selected)
  | .move direction =>
    match Vertical.ofName? direction with
    | some vertical => Editing.move vertical s.tree s.selected
    | none => .ok (.declined (.unsupportedMove direction))
  | .replace node below => Editing.replace node below s.tree s.selected
  | .updateValue revise => Editing.updateValue revise s.tree s.selected
  | .setText text => Editing.setText text s.tree s.selected
  | .changeKeyword keyword => Editing.changeKeyword keyword s.tree s.selected
  | .setBoolean value => Editing.setBoolean value s.tree s.selected
  | .addToNumber increment => Editing.addToNumber increment s.tree s.selected
  | .toText => Editing.toText s.tree s.selected
  | .toNumber => Editing.toNumber s.tree s.selected
  | .toArray => Editing.toArray s.tree s.selected
  | .toObject => Editing.toObject s.tree s.selected
  | .toNull => Editing.toNull s.tree s.selected
  | .reset tree => .ok (.applied .documentReset ⟨some tree, some []⟩)

end StructuralEditor.Editing
