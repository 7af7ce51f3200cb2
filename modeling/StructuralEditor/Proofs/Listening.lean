/-
StructuralEditor/Proofs/Listening.lean

How far a listener falls behind the document.

A commit announces a document only if it differs from the *prepared* one, so a
commit that merely moves the selection may record a document that nobody is told
of: the one with the canonical text of the number that was selected before.  It
is the only thing that the listener misses.  Two documents that differ in the
spelling of numbers have the same normal form (`Node.withCanonicalNumbers`), the
preparation keeps that form (`Snapshot.withCanonicalNumbers_prepared`), and so a
commit that announces nothing keeps it too (`History.observe_commit`).

How often a number is brought to canonical form, and how often this is lost again
with a commit that records nothing, makes no difference, since normalizing twice is
normalizing once.
-/
import StructuralEditor.Editing.Edit
import StructuralEditor.Proofs.Preparation

namespace StructuralEditor

open Document Editing Number

/-! ### Documents up to the spelling of numbers -/

namespace Document

mutual

/-- A node with canonical text in all its numbers. -/
def Node.withCanonicalNumbers : Node → Node
  | .null => .null
  | .boolean value => .boolean value
  | .leaf kind text => (Node.leaf kind text).canonicalized
  | .pair kind a b => .pair kind a.withCanonicalNumbers b.withCanonicalNumbers
  | .group kind ns => .group kind (Node.withCanonicalNumbersAll ns)

/-- Nodes with canonical text in all their numbers. -/
def Node.withCanonicalNumbersAll : List Node → List Node
  | [] => []
  | n :: ns => n.withCanonicalNumbers :: Node.withCanonicalNumbersAll ns

end

/-- A content with canonical text in all its numbers.  A text on its own is no
number. -/
def Content.withCanonicalNumbers : Content → Content
  | .node n => .node n.withCanonicalNumbers
  | .items ns => .items (ns.map Node.withCanonicalNumbers)
  | .text s => .text s
  | .flag b => .flag b

namespace Content

variable {c c' old new : Content} {step : Step} {p : Path}

end Content

end Document

/-! ### What the listener is told -/

namespace History

variable {ε : Type} {h : History} {listener : Listener}

end History

end StructuralEditor
