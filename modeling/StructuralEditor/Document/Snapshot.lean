/-
StructuralEditor/Document/Snapshot.lean

A snapshot is what an editor shows: a document and a selection in it.  A
change replaces one of them or both.
-/
import StructuralEditor.Document.Store

namespace StructuralEditor.Document

/-- A document and the place selected in it. -/
structure Snapshot where
  tree : Node
  selected : Path
  deriving DecidableEq

/-- A new document, a new selection, both or neither. -/
structure Change where
  tree? : Option Node
  selected? : Option Path
  deriving DecidableEq

namespace Snapshot

/-- The snapshot after a change. -/
def apply (s : Snapshot) (c : Change) : Snapshot :=
  ⟨c.tree?.getD s.tree, c.selected?.getD s.selected⟩

/-- The selected node, if the selection leads to one. -/
def node? (s : Snapshot) : Option Node :=
  s.tree.nodeAt? s.selected

/-- Whether the selection is valid in the document. -/
def resolves (s : Snapshot) : Bool :=
  s.tree.resolves s.selected

end Snapshot

end StructuralEditor.Document
